import TerseRuby.Literal.Interpolation
import TerseRuby.Render.Arguments
import TerseRuby.Render.Content

/-!
# Literals

The rules for literals that are nodes: numbers, symbols, strings with slots and without, arrays and
hashes.  How their contents are spelled is the matter of the modules under `Literal`, and of
`Render/Content.lean` where the content of a string is no text.
-/

set_option autoImplicit false

namespace TerseRuby
namespace Rules

/-- An integer literal: the numeral of a number, and what shows any other value. -/
def integer (value : Value) : Except Fault Draft := do return Draft.lit (← value.shown)

/-- A floating-point literal. -/
def float (value : Value) : Except Fault Draft :=
  match value with
  | .scalar s => do return Draft.of (Text.ofChars (← Literal.float s))
  | v => throw (.notNumber v.typeName)

/-- A symbol literal. -/
def symbol (value : Value) : Except Fault Draft :=
  match value.text? with
  | some text => .ok (Draft.of (Text.ofChars (Literal.symbol text.toList)))
  | none => .error (.notSpelling value.typeName)

/-- A string literal. -/
def string (content : Value) : Except Fault Draft := do
  return Draft.of (Text.ofChars (← Content.literal content))

/-- The part of an interpolated string that a value is; a slot stands for itself. -/
def stringPart {α : Type} (value : α → Value) (x : α) : Literal.Part α :=
  match value x with
  | .node .string field =>
    match (field .content).text? with
    | some text => .run text.toList
    | none => .foreign (field .content).typeName
  | .node .embedded _ => .slot x
  | v => .other v.typeName

/-- An interpolated string. -/
def interpolated (c : Field → FieldRendition) : Writer Draft := do
  let parts := (← (c .parts).sequence).map (stringPart Rendition.value)
  let segments ← Literal.segments parts
  return Draft.of
    (← Literal.splice Text.ofChars (fun slot : Rendition => slot.text .slot) segments)

/-- An array literal. -/
def array (c : Field → FieldRendition) : Writer Draft := do
  let list ← arguments (← (c .elements).sequence) none
  return Draft.lit "[" ++ Draft.of list ++ Draft.lit "]"

/-- A hash literal. -/
def hash (c : Field → FieldRendition) : Writer Draft := do
  return Draft.lit "\x7b" ++ Draft.of (← hashElements (c .elements)) ++ Draft.lit "\x7d"

end Rules

/-! ## Splicing by itself -/

namespace Value

/-- An interpolated string, given how the statements of a slot are written.  What is no part of a
string is refused before any slot is written. -/
def splice {m : Type → Type} [Monad m] (write : Value → m (List Char)) (tree : Value) :
    Except Fault (m (List Char)) := do
  if !tree.kind?.any (·.has .parts) then
    throw (.missingMember tree.typeName Field.parts.spelling)
  let parts ← (tree.field .parts).sequence
  let segments ← Literal.segments (parts.map (Rules.stringPart id))
  return Literal.splice id (fun slot => write (slot.field .statements)) segments

/-- Take the next of some texts, the empty one when none are left, and note whom it was for. -/
def takeText (statements : Value) : StateM (List (List Char) × List Value) (List Char) := do
  let (texts, seen) ← get
  set (texts.tail, seen ++ [statements])
  return texts.headD []

/-- An interpolated string whose slots are filled with given texts, in order; with the statements
of the slots that were filled. -/
def spliceTexts (tree : Value) (texts : List (List Char)) :
    Except Fault (List Char × List Value) := do
  let (text, _, seen) := (← tree.splice takeText).run (texts, [])
  return (text, seen)

end Value
end TerseRuby
