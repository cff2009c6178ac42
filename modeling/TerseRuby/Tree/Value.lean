import TerseRuby.Tree.Kind
import TerseRuby.Tree.Location

/-!
# Parse trees

A tree comes from outside, and its fields are not checked when it is read: where a rule expects a
node there may be any value.  So there is one type for everything a field can hold.  A `Value` is

* a node, given by its kind and by a value for every field (`Value.null` for the fields that its
  kind does not have);
* a sequence of values;
* a source location;
* a scalar, or an object that names no kind of node and is carried along untouched.

The texts in a tree are of any type of texts `σ` as long as the tree is only read from data, written
as data or compared; a tree that is rendered has strings for texts.

Where a rule goes through a sequence, it goes through whatever is made of elements
(`Value.elements`): a text by its characters, an object by its keys.

Because a node is a function from fields to values, a rule that goes through the fields of any
node can be written once, over the table in `Tree/Kind.lean`, and is still structural recursion:
`field f` is a part of `node kind field` for every `f`.  `Value.induction` is the matching
principle of proof.
-/

set_option autoImplicit false

namespace TerseRuby

/-- Anything that can stand in a field of a parse tree. -/
inductive Value (σ : Type := String) where
  /-- A scalar. -/
  | scalar (s : Scalar σ)
  /-- An object that names no kind of node. -/
  | table (entries : List (σ × Json σ))
  /-- A source location. -/
  | location (l : Location σ)
  /-- A sequence. -/
  | seq (items : List (Value σ))
  /-- A node. -/
  | node (kind : Kind) (field : Field → Value σ)

namespace Value

variable {σ : Type}

/-- The absent value. -/
def null : Value σ := .scalar .null

/-- The empty sequence. -/
def empty : Value σ := .seq []

/-! ## Induction -/

/-- To prove something of all values, prove it of a sequence from its items and of a node from all
its fields. -/
theorem induction {P : Value σ → Prop} (scalar : ∀ s, P (.scalar s))
    (table : ∀ entries, P (.table entries)) (location : ∀ l, P (.location l))
    (seq : ∀ items, (∀ v ∈ items, P v) → P (.seq items))
    (node : ∀ kind field, (∀ f, P (field f)) → P (.node kind field)) (v : Value σ) : P v :=
  @Value.rec σ P (fun items => ∀ v ∈ items, P v)
    scalar table location (fun items ih => seq items ih) (fun kind field ih => node kind field ih)
    (fun _ h => nomatch h)
    (fun _ _ head tail _ h => by
      rcases List.mem_cons.mp h with rfl | h
      · exact head
      · exact tail _ h)
    v

/-! ## Looking at a value -/

/-- The name that messages give to the type of a value; for a node, its kind. -/
def typeName : Value σ → String
  | .scalar s => s.typeName
  | .table _ => "dict"
  | .location _ => Location.kindName
  | .seq _ => "tuple"
  | .node kind _ => kind.name

/-- Whether the value is absent. -/
def isNull : Value σ → Bool
  | .scalar .null => true
  | _ => false

/-- Whether a value counts as true. -/
def isTrue : Value → Bool
  | .scalar s => s.isTrue
  | .table entries => !entries.isEmpty
  | .seq items => !items.isEmpty
  | .location _ => true
  | .node _ _ => true

/-- The kind, if the value is a node. -/
def kind? : Value σ → Option Kind
  | .node kind _ => some kind
  | _ => none

/-- Whether the value is a node of the given kind. -/
def isKind (kind : Kind) (v : Value σ) : Bool := v.kind? == some kind

/-- Whether the value is a node of one of the kinds in a group. -/
def inGroup (group : Kind → Bool) (v : Value σ) : Bool := v.kind?.any group

/-- Whether the value is a node. -/
def isNode : Value σ → Bool
  | .node _ _ => true
  | _ => false

/-- The text, if the value is one. -/
def text? : Value → Option String
  | .scalar (.str s) => some s
  | _ => none

/-- The elements that a value is made of: the items of a sequence, the characters of a text, each a
text of its own, and the keys of an object.  Nothing else has any. -/
def elements : Value → List Value
  | .seq items => items
  | .scalar (.str s) => s.toList.map fun c => .scalar (.str (String.singleton c))
  | .table entries => entries.map fun entry => .scalar (.str entry.1)
  | _ => []

/-- Whether a value is made of elements. -/
def isCollection : Value → Bool
  | .seq _ => true
  | .scalar (.str _) => true
  | .table _ => true
  | _ => false

/-- The elements of a value that has to be made of some. -/
def sequence (v : Value) : Except Fault (List Value) :=
  if v.isCollection then .ok v.elements else .error (.notSequence v.typeName)

/-- The number of elements of a value that has to be made of some. -/
def length (v : Value) : Except Fault Nat :=
  if v.isCollection then .ok v.elements.length else .error (.noLength v.typeName)

/-- The element at a place, if there is one; the elements of an object have no places. -/
def elementAt (v : Value) (place : Nat) : Except Fault Value :=
  match v with
  | .table _ => .error (.missingPlace place)
  | v => .ok (v.elements.getD place null)

/-- The field of a node; nothing else has fields. -/
def field : Value σ → Field → Value σ
  | .node _ field, f => field f
  | _, _ => null

/-- The name of a node, if it has a name that is a text. -/
def nodeName? : Value → Option String
  | .node kind field => if kind.has .name then (field .name).text? else none
  | _ => none

end Value

/-- The value of a field that was not given. -/
def Default.value {σ : Type} : Default → Value σ
  | .required => .null
  | .null => .null
  | .no => .scalar (.bool false)
  | .empty => .empty

/-- The value that a field of a node of the given kind has when it was not given. -/
def Kind.defaultOf {σ : Type} (k : Kind) (f : Field) : Value σ :=
  match k.fields.lookup f with
  | some d => d.value
  | none => .null

/-- The node of a kind with the given fields, the others having their defaults. -/
def Value.ofFields {σ : Type} (kind : Kind) (given : List (Field × Value σ)) : Value σ :=
  .node kind fun f => (given.lookup f).getD (kind.defaultOf f)

end TerseRuby
