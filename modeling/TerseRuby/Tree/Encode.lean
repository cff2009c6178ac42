import TerseRuby.Json.Writer
import TerseRuby.Tree.Traversal

/-!
# Writing trees as data

The serialized form of a node has an entry for its kind and one for every field of that kind, the
location and the fields with their default included.  `Value.toJson` gives the data, `Value.toText`
its JSON text with numbers of any length, and `Value.written` that text if no number in it has more
digits than are written.
-/

set_option autoImplicit false

namespace TerseRuby

namespace Value

open CodedText (literal)

variable {σ : Type} [CodedText σ]

mutual

/-- The serialized form of a value. -/
def toJson : Value σ → Json σ
  | .scalar s => .scalar s
  | .table entries => .object entries
  | .location l => l.toJson
  | .seq items => .array (toItems items)
  | .node kind field =>
    .object ((kindKey, .str (literal kind.name)) ::
      kind.fields.map fun entry => (literal entry.1.spelling, toJson (field entry.1)))

/-- The serialized forms of the items of a sequence. -/
def toItems : List (Value σ) → List (Json σ)
  | [] => []
  | v :: rest => toJson v :: toItems rest

end

/-- The serialized form of something that has fields. -/
def recordToJson (v : Value σ) : Except Fault (Json σ) :=
  if v.isRecord then .ok v.toJson else .error .notRecord

/-- The JSON text of a tree. -/
def toText (indent : Option Int) (tree : Value σ) : String := tree.toJson.render indent

/-- The JSON text of a tree, if the numbers in it can be written. -/
def written (indent : Option Int) (tree : Value σ) : Except Fault String :=
  if tree.toJson.hasLong then .error .numberTooLong else .ok (tree.toText indent)

end Value
end TerseRuby
