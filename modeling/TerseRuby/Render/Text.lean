import TerseRuby.Options

/-!
# Text before the cosmetic choices are made

Two of the options only choose a spelling: the separator between statements is a semicolon or a
line break, and a blank after a keyword that the language does not need is written or not.  The
rules of the renderer do not look at these options at all.  They produce a `Text`, in which such a
place is marked by a glyph of its own, and `Text.spell` makes the choice at the very end.

The rules do look at the first or last character of a text, to keep two tokens apart.  That is
sound for every spelling: a separator is never one of the characters they ask about, and an
optional blank is never the first glyph of a text.
-/

set_option autoImplicit false

namespace TerseRuby

/-- A piece of rendered text. -/
inductive Glyph where
  /-- A character. -/
  | char (c : Char)
  /-- The separator between two statements. -/
  | separator
  /-- A blank that may be left out. -/
  | optionalBlank
  deriving DecidableEq, Repr

/-- Rendered text. -/
abbrev Text := List Glyph

/-- The characters that a glyph stands for under some options. -/
def Glyph.spell (o : Options) : Glyph → List Char
  | .char c => [c]
  | .separator => [o.separator]
  | .optionalBlank => if o.spaceAfterKeywords then [' '] else []

namespace Text

/-- The characters of a text under some options. -/
def spell (o : Options) (t : Text) : List Char := t.flatMap (Glyph.spell o)

/-- Characters as text. -/
def ofChars (cs : List Char) : Text := cs.map Glyph.char

/-- A string as text. -/
def lit (s : String) : Text := ofChars s.toList

/-- Texts with commas between them. -/
def commaSeparated (parts : List Text) : Text := List.intercalate (lit ",") parts

/-- A text in parentheses. -/
def parenthesized (t : Text) : Text := lit "(" ++ t ++ lit ")"

/-- A text in parentheses, if they are needed. -/
def grouped (needed : Bool) (t : Text) : Text := if needed then parenthesized t else t

/-- Whether the first character satisfies a test. -/
def startsWith (p : Char → Bool) (t : Text) : Bool :=
  match t.head? with
  | some (.char c) => p c
  | _ => false

/-- Whether the last character satisfies a test. -/
def endsWith (p : Char → Bool) (t : Text) : Bool :=
  match t.getLast? with
  | some (.char c) => p c
  | _ => false

@[simp] theorem spell_append (o : Options) (s t : Text) :
    spell o (s ++ t) = spell o s ++ spell o t := by
  simp [spell]

@[simp] theorem spell_ofChars (o : Options) (cs : List Char) : spell o (ofChars cs) = cs := by
  induction cs with
  | nil => rfl
  | cons c cs ih => simpa [spell, ofChars, Glyph.spell] using ih

end Text
end TerseRuby
