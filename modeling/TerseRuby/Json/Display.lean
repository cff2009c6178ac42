import TerseRuby.Json.Basic
import TerseRuby.Quoted

/-!
# Documents shown inside a text

A document can stand inside a message or a literal.  A scalar is then shown as it is
(`Scalar.display`), and a container by its items between brackets; inside a container a text is
quoted, so that its ends can be seen.
-/

set_option autoImplicit false

namespace TerseRuby

/-- A scalar inside a container. -/
def Scalar.quoted : Scalar → String
  | .str s => Quoted.encode s
  | s => s.display

/-- Shown items between brackets. -/
def Quoted.enclosed (opening closing : String) (items : List String) : String :=
  opening ++ String.intercalate ", " items ++ closing

namespace Json

mutual

/-- A document inside a container. -/
def quoted : Json → String
  | .scalar s => s.quoted
  | .array items => Quoted.enclosed "[" "]" (quotedItems items)
  | .object entries => Quoted.enclosed "\x7b" "\x7d" (quotedEntries entries)

/-- The items of a list. -/
def quotedItems : List Json → List String
  | [] => []
  | d :: rest => quoted d :: quotedItems rest

/-- The entries of an object. -/
def quotedEntries : List (String × Json) → List String
  | [] => []
  | (key, d) :: rest => (Quoted.encode key ++ ": " ++ quoted d) :: quotedEntries rest

end

/-- A document by itself. -/
def display : Json → String
  | .scalar s => s.display
  | .array items => quoted (.array items)
  | .object entries => quoted (.object entries)

/-! ## Numbers that are not written -/

section

variable {σ : Type}

mutual

/-- Whether a document has a whole number in it with more digits than are written. -/
def hasLong : Json σ → Bool
  | .scalar s => s.isLong
  | .array items => itemsHaveLong items
  | .object entries => entriesHaveLong entries

/-- Whether an item of a list has such a number in it. -/
def itemsHaveLong : List (Json σ) → Bool
  | [] => false
  | d :: rest => hasLong d || itemsHaveLong rest

/-- Whether a value of an object has such a number in it. -/
def entriesHaveLong : List (σ × Json σ) → Bool
  | [] => false
  | (_, d) :: rest => hasLong d || entriesHaveLong rest

end

end

end Json
end TerseRuby
