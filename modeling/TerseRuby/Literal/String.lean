import TerseRuby.Character.Class
import TerseRuby.Character.Hex

/-!
# String literals

A string is written between double quotes or between single quotes, whichever is shorter.

Between double quotes a backslash, the quote and a carriage return have short escapes, and any
other control character but newline and tab is written by its code.  A number sign is escaped only
where it would open an interpolation, that is, before a brace, an at sign or a dollar sign; so the
escape of a text depends on the character that comes after it, and `Literal.escape` takes what
follows as an argument.

Between single quotes only the backslash and the quote are escaped, so this form is used only for
texts without control characters.
-/

set_option autoImplicit false

namespace TerseRuby
namespace Literal

/-- The texts that open an interpolation after a number sign: a brace, an at sign or a dollar sign,
or several of these in that order. -/
def interpolationOpeners : List (List Char) :=
  [['\x7b'], ['@'], ['$'], ['\x7b', '@'], ['@', '$'], ['\x7b', '@', '$']]

/-- The escape of one character between double quotes, given what comes after it. -/
def escapeChar (c : Char) (next : List Char) : List Char :=
  if c == '\\' then ['\\', '\\']
  else if c == '"' then ['\\', '"']
  else if c == '\r' then ['\\', 'r']
  else if c == '#' then if interpolationOpeners.contains next then ['\\', '#'] else ['#']
  else if CharClass.isControl c then '\\' :: 'x' :: Hex.upper 2 c.toNat
  else [c]

/-- What comes after a character: the next one, or what follows the text. -/
def nextText (rest following : List Char) : List Char :=
  match rest with
  | [] => following
  | c :: _ => [c]

/-- A text between double quotes, given what follows it. -/
def escape (following : List Char) : List Char → List Char
  | [] => []
  | c :: rest => escapeChar c (nextText rest following) ++ escape following rest

/-- A text as a double-quoted literal. -/
def doubleQuoted (text : List Char) : List Char := '"' :: escape ['"'] text ++ ['"']

/-- The escape of one character between single quotes. -/
def singleEscapeChar (c : Char) : List Char :=
  if c == '\\' || c == '\'' then ['\\', c] else [c]

/-- A text as a single-quoted literal. -/
def singleQuoted (text : List Char) : List Char := '\'' :: text.flatMap singleEscapeChar ++ ['\'']

/-- Whether a text can be written between single quotes. -/
def isSingleQuotable (text : List Char) : Bool := !text.any CharClass.isControl

/-- A string literal: the shorter of the two forms, double quotes where they are equally long. -/
def string (text : List Char) : List Char :=
  if isSingleQuotable text && (singleQuoted text).length < (doubleQuoted text).length
  then singleQuoted text
  else doubleQuoted text

end Literal
end TerseRuby
