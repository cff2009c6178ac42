import TerseRuby.Json.Basic
import TerseRuby.Character.Hex

/-!
# Writing JSON text

The text of a document is determined by the document alone: the entries of an object are written
in the order of their keys, by code point, and everything outside printable ASCII is escaped, with
a pair of surrogates beyond the basic plane.

Without an indentation the text is one line, with a blank after each comma and colon.  With one,
every item and every entry stands on a line of its own, indented by that many blanks for each
container around it; an empty container is still written in one piece.
-/

set_option autoImplicit false

namespace TerseRuby
namespace Json

variable {σ : Type}

/-! ## Texts -/

/-- The four-digit escape of a code unit. -/
def unitEscape (code : Nat) : List Char := '\\' :: 'u' :: Hex.lower 4 code

/-- One character between the quotes of a text. -/
def encodeChar (c : Char) : List Char :=
  match c with
  | '"' => ['\\', '"']
  | '\\' => ['\\', '\\']
  | '\n' => ['\\', 'n']
  | '\r' => ['\\', 'r']
  | '\t' => ['\\', 't']
  | c =>
    let code := c.toNat
    if code == 8 then ['\\', 'b']
    else if code == 12 then ['\\', 'f']
    else if 0x20 ≤ code && code ≤ 0x7E then [c]
    else if code < 0x10000 then unitEscape code
    else
      let offset := code - 0x10000
      unitEscape (0xD800 + offset / 0x400) ++ unitEscape (0xDC00 + offset % 0x400)

/-- One code point between the quotes of a text: a surrogate is escaped by itself. -/
def encodePoint : CodePoint → List Char
  | .char c => encodeChar c
  | p => unitEscape p.value

variable [CodedText σ]

/-- A text between quotes. -/
def encodeText (s : σ) : List Char := '"' :: (CodedText.codes s).flatMap encodePoint ++ ['"']

/-- A scalar's text. -/
def encodeScalar : Scalar σ → List Char
  | .null => "null".toList
  | .bool true => "true".toList
  | .bool false => "false".toList
  | .int n => Decimal.intText n
  | .float x => NumberFormat.json.text x
  | .str s => encodeText s

/-! ## Containers -/

/-- How the parts of a container are laid out: on one line, or on lines of their own with the
given number of blanks for each level. -/
inductive Layout where
  /-- Everything on one line. -/
  | compact
  /-- Each part on its own line. -/
  | indented (blanks : Nat)
  deriving DecidableEq, Repr

namespace Layout

/-- The layout for an optional indentation; a negative one counts as zero. -/
def ofIndent : Option Int → Layout
  | none => .compact
  | some n => .indented n.toNat

/-- The line break before a part at the given depth. -/
def lineBreak (layout : Layout) (depth : Nat) : List Char :=
  match layout with
  | .compact => []
  | .indented blanks => '\n' :: List.replicate (blanks * depth) ' '

/-- What stands between two parts at the given depth. -/
def separator (layout : Layout) (depth : Nat) : List Char :=
  match layout with
  | .compact => [',', ' ']
  | .indented _ => ',' :: layout.lineBreak depth

/-- Parts at the given depth between an opening and a closing character. -/
def enclose (layout : Layout) (depth : Nat) (opening closing : Char) :
    List (List Char) → List Char
  | [] => [opening, closing]
  | parts =>
    opening :: layout.lineBreak (depth + 1) ++ List.intercalate (layout.separator (depth + 1)) parts
      ++ layout.lineBreak depth ++ [closing]

end Layout

/-- Order of entries by key. -/
def keyLe {α : Type} (a b : σ × α) : Bool := !(CodedText.values b.1 < CodedText.values a.1)

/-- An entry's text, from its key and the text of its value. -/
def encodeEntry (entry : σ × List Char) : List Char :=
  encodeText entry.1 ++ ':' :: ' ' :: entry.2

mutual

/-- A document's text at the given depth. -/
def write (layout : Layout) (depth : Nat) : Json σ → List Char
  | .scalar s => encodeScalar s
  | .array items => layout.enclose depth '[' ']' (writeItems layout (depth + 1) items)
  | .object entries =>
    layout.enclose depth '\x7b' '\x7d'
      (((writeEntries layout (depth + 1) entries).mergeSort keyLe).map encodeEntry)

/-- The texts of the items of a list. -/
def writeItems (layout : Layout) (depth : Nat) : List (Json σ) → List (List Char)
  | [] => []
  | d :: rest => write layout depth d :: writeItems layout depth rest

/-- The keys of an object with the texts of their values. -/
def writeEntries (layout : Layout) (depth : Nat) :
    List (σ × Json σ) → List (σ × List Char)
  | [] => []
  | (key, d) :: rest => (key, write layout depth d) :: writeEntries layout depth rest

end

/-- The text of a document. -/
def render (indent : Option Int) (d : Json σ) : String :=
  String.ofList (write (Layout.ofIndent indent) 0 d)

end Json
end TerseRuby
