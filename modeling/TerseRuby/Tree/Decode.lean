import TerseRuby.Json.Reader
import TerseRuby.Tree.Value

/-!
# Reading trees from data

In serialized form a node is an object whose entry `_type` names its kind.  Reading looks at the
fields of that kind, in their order, and ignores every other entry; a field's value is read before
it is noticed that a later one is missing, and the first failure is the answer.  Inside a field

* a list becomes a sequence,
* an object that names a kind becomes a node, one that names a source location becomes a location,
* an object that names nothing is kept as it is, and so is a scalar.

`Value.ofJson` reads a tree, `Value.ofField` what stands in a field, and `Value.programOfText` a
program from JSON text.
-/

set_option autoImplicit false

namespace TerseRuby

namespace Value

open CodedText (literal)

variable {σ : Type} [DecidableEq σ] [CodedText σ]

/-- The failure of a scalar to name a kind. -/
def unknownKind (s : Scalar σ) : Fault :=
  if s.isLong then .numberTooLong
  else .unsupported (s.mapText CodedText.shown).display (some .unknownKind)

/-- The kind that the entry for it names. -/
def resolveKind : Json σ → Except Fault Kind
  | .scalar (.str s) =>
    match Kind.ofName? s with
    | some kind => .ok kind
    | none => .error (unknownKind (.str s))
  | .scalar s => .error (unknownKind s)
  | d => .error (.unhashable d.typeName)

/-- The given ones among some fields, in their order; the first that failed is the answer. -/
def collectFields (read : List (σ × Except Fault (Value σ))) :
    List (Field × Default) → Except Fault (List (Field × Value σ))
  | [] => .ok []
  | (f, _) :: rest =>
    match read.lookup (literal f.spelling) with
    | none => collectFields read rest
    | some value => do
      let value ← value
      return (f, value) :: (← collectFields read rest)

/-- The spellings of the fields that have to be given and were not. -/
def missingFields (kind : Kind) (given : List (Field × Value σ)) : List String :=
  kind.fields.filterMap fun (f, d) =>
    if d == .required && (given.lookup f).isNone then some f.spelling else none

/-- The node of a kind, from its entries as they were read. -/
def assemble (kind : Kind) (read : List (σ × Except Fault (Value σ))) :
    Except Fault (Value σ) := do
  let given ← collectFields read kind.fields
  match missingFields kind given with
  | [] => return ofFields kind given
  | missing => .error (.missingFields kind.name missing)

mutual

/-- What stands in a field. -/
def ofField : Json σ → Except Fault (Value σ)
  | .scalar s => .ok (.scalar s)
  | .array items => do return .seq (← ofItems items)
  | .object entries =>
    match entries.lookup kindKey with
    | none => .ok (.table entries)
    | some kindName =>
      if kindName.isNull then .ok (.table entries)
      else if kindName.text? == some (literal Location.kindName) then do
        return .location (← Location.decode entries)
      else do
        assemble (← resolveKind kindName) (ofEntries entries)

/-- The items of a list, up to the first that fails. -/
def ofItems : List (Json σ) → Except Fault (List (Value σ))
  | [] => .ok []
  | d :: rest => do
    let value ← ofField d
    return value :: (← ofItems rest)

/-- Every entry of an object as a field. -/
def ofEntries : List (σ × Json σ) → List (σ × Except Fault (Value σ))
  | [] => []
  | (key, d) :: rest => (key, ofField d) :: ofEntries rest

end

/-- The tree that a document describes. -/
def ofJson : Json σ → Except Fault (Value σ)
  | .object entries => do
    let kindName := (entries.lookup kindKey).getD .null
    if kindName.isNull then .error .missingKind
    else assemble (← resolveKind kindName) (ofEntries entries)
  | d => .error (.missingMember d.typeName "get")

/-- The program that a JSON text describes. -/
def programOfText (text : String) : Except Fault (Value σ) := do
  match Json.parse? text with
  | none => .error .malformedJson
  | some d =>
    let tree ← ofJson d
    if tree.isKind .program then return tree else .error (.notProgram tree.typeName)

end Value
end TerseRuby
