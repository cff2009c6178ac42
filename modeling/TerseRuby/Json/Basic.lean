import TerseRuby.Scalar

/-!
# JSON documents

A document is a scalar, a list of documents, or an object.  An object is kept as the list of its
entries in the order of their first appearance, with distinct keys; which entry comes first is
never observable, because objects are compared without regard to order and written sorted by key.
Keys are texts of the same type `σ` as the texts among the scalars.
-/

set_option autoImplicit false

namespace TerseRuby

/-- A JSON document. -/
inductive Json (σ : Type := String) where
  /-- A number, a text, a truth value or null. -/
  | scalar (s : Scalar σ)
  /-- A list. -/
  | array (items : List (Json σ))
  /-- An object. -/
  | object (entries : List (σ × Json σ))
  deriving Repr

namespace Json

variable {σ : Type}

/-- To prove something of all documents, prove it of a list from its items and of an object from
the values of its entries. -/
theorem induction {P : Json σ → Prop} (scalar : ∀ s, P (.scalar s))
    (array : ∀ items, (∀ d ∈ items, P d) → P (.array items))
    (object : ∀ entries, (∀ entry ∈ entries, P entry.2) → P (.object entries)) (d : Json σ) : P d :=
  @Json.rec σ P (fun items => ∀ d ∈ items, P d) (fun entries => ∀ entry ∈ entries, P entry.2)
    (fun entry => P entry.2) scalar (fun items ih => array items ih)
    (fun entries ih => object entries ih)
    (fun _ h => nomatch h) (fun _ _ head tail => List.forall_mem_cons.mpr ⟨head, tail⟩)
    (fun _ h => nomatch h) (fun _ _ head tail => List.forall_mem_cons.mpr ⟨head, tail⟩)
    (fun _ _ ih => ih) d

/-- The document that is no value. -/
def null : Json σ := .scalar .null

/-- A text as a document. -/
def str (s : σ) : Json σ := .scalar (.str s)

/-- A truth value as a document. -/
def bool (b : Bool) : Json σ := .scalar (.bool b)

/-- A whole number as a document. -/
def int (n : Int) : Json σ := .scalar (.int n)

/-- The name that messages give to the type of a document. -/
def typeName : Json σ → String
  | .scalar s => s.typeName
  | .array _ => "list"
  | .object _ => "dict"

/-- Whether a document counts as true: lists and objects do unless they are empty. -/
def isTrue : Json → Bool
  | .scalar s => s.isTrue
  | .array items => !items.isEmpty
  | .object entries => !entries.isEmpty

/-- Whether a document is null. -/
def isNull : Json σ → Bool
  | .scalar .null => true
  | _ => false

/-- The text a document consists of, if it is one. -/
def text? : Json σ → Option σ
  | .scalar (.str s) => some s
  | _ => none

/-- The value under a key, if the document is an object that has the key. -/
def get? [DecidableEq σ] (d : Json σ) (key : σ) : Option (Json σ) :=
  match d with
  | .object entries => entries.lookup key
  | _ => none

/-- The value under a key, null where there is none. -/
def getD [DecidableEq σ] (d : Json σ) (key : σ) : Json σ := (d.get? key).getD null

/-- Put a value under a key: in the place of the old value, or at the end. -/
def insertEntry [DecidableEq σ] (key : σ) (value : Json σ) :
    List (σ × Json σ) → List (σ × Json σ)
  | [] => [(key, value)]
  | (k, v) :: rest =>
    if k == key then (key, value) :: rest else (k, v) :: insertEntry key value rest

/-! ## Equality of values -/

section

variable [DecidableEq σ]

mutual

/-- Equality of values: scalars as given, lists item by item, objects as maps. -/
def sameBy (eq : Scalar σ → Scalar σ → Bool) : Json σ → Json σ → Bool
  | .scalar a, .scalar b => eq a b
  | .array xs, .array ys => sameItemsBy eq xs ys
  | .object xs, .object ys => xs.length == ys.length && sameEntriesBy eq xs ys
  | _, _ => false

/-- Equality of lists, item by item. -/
def sameItemsBy (eq : Scalar σ → Scalar σ → Bool) : List (Json σ) → List (Json σ) → Bool
  | [], [] => true
  | x :: xs, y :: ys => sameBy eq x y && sameItemsBy eq xs ys
  | _, _ => false

/-- Whether every entry of the first object has an equal one in the second. -/
def sameEntriesBy (eq : Scalar σ → Scalar σ → Bool) :
    List (σ × Json σ) → List (σ × Json σ) → Bool
  | [], _ => true
  | (key, x) :: rest, ys =>
    (match ys.lookup key with
      | some y => sameBy eq x y
      | none => false) && sameEntriesBy eq rest ys

end

end

end Json
end TerseRuby
