import TerseRuby.Character.Class
import TerseRuby.Character.Hex

/-!
# Quoting a text inside a message

A message that names an unknown symbol shows it between quotes, so that blanks and invisible
characters in it can be seen.  Single quotes are used unless the text itself has a single quote
and no double quote.  Inside, a backslash and the chosen quote are escaped, and so is every
character that cannot be shown: by a short escape if it has one, else by the shortest of the
two-, four- and eight-digit hexadecimal escapes that holds it.
-/

set_option autoImplicit false

namespace TerseRuby
namespace Quoted

/-- The quote for a text: single, unless only that one occurs in it. -/
def quoteFor (text : List Char) : Char :=
  if text.contains '\'' && !text.contains '"' then '"' else '\''

/-- The escape of a character that cannot be shown. -/
def numericEscape (c : Char) : List Char :=
  let code := c.toNat
  if code < 0x100 then '\\' :: 'x' :: Hex.lower 2 code
  else if code < 0x10000 then '\\' :: 'u' :: Hex.lower 4 code
  else '\\' :: 'U' :: Hex.lower 8 code

/-- One character of a text between the given quotes. -/
def encodeChar (quote c : Char) : List Char :=
  if c == '\\' || c == quote then ['\\', c]
  else match c with
    | '\n' => ['\\', 'n']
    | '\r' => ['\\', 'r']
    | '\t' => ['\\', 't']
    | _ => if CharClass.isPrintable c then [c] else numericEscape c

/-- A text between quotes. -/
def encode (text : String) : String :=
  let chars := text.toList
  let quote := quoteFor chars
  String.ofList (quote :: chars.flatMap (encodeChar quote) ++ [quote])

end Quoted
end TerseRuby
