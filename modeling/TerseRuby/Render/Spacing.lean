import TerseRuby.Character.Class
import TerseRuby.Render.Draft

/-!
# Keeping tokens apart

The shortest text has no blank that is not needed.  A blank is needed where two tokens would be
read as one, and whether they would is decided by the first or last character of the texts that
meet:

* after a keyword, unless a quote follows, which begins a token of its own (`Draft.afterKeyword`);
* before an infix operator, where a question or exclamation mark at the end of the left operand, or
  a symbol, could take the first character of the operator (`Text.joinInfix`);
* after a label, before a second colon (`Text.joinLabel`);
* after an equals sign, before a tilde (`Text.equals`).
-/

set_option autoImplicit false

namespace TerseRuby
namespace Text

/-- Whether a character is a quote. -/
def isQuote (c : Char) : Bool := c == '"' || c == '\''

/-- The blank between a keyword and the text after it.  It is optional before a quote, and where
there is nothing to keep apart. -/
def keywordGap (t : Text) : Text :=
  if t.isEmpty || t.startsWith isQuote then [.optionalBlank] else [.char ' ']

/-- Whether a character at the end of a name would take an equals sign after it. -/
def isNameMark (c : Char) : Bool := c == '?' || c == '!'

/-- Whether a symbol that ends in a character is complete there, whatever operator follows. -/
def endsSymbol (c : Char) : Bool := CharClass.isAlphanumeric c || c == '_' || c == '"'

/-- Whether an operand would take the first character of the operator written after it. -/
def fuses (leftIsSymbol : Bool) (left : Text) (operator : String) : Bool :=
  left.endsWith isNameMark ||
    (leftIsSymbol && (operator.toList.head? == some '=' || !left.endsWith endsSymbol))

/-- Two operands around an operator. -/
def joinInfix (leftIsSymbol : Bool) (left : Text) (operator : String) (right : Text) : Text :=
  left ++ (if fuses leftIsSymbol left operator then lit " " else []) ++ lit operator ++ right

/-- A value after a label. -/
def joinLabel (label value : Text) : Text :=
  label ++ (if value.startsWith (· == ':') then lit " " else []) ++ value

/-- The equals sign before a value. -/
def equals (value : Text) : Text := if value.startsWith (· == '~') then lit "= " else lit "="

end Text

namespace Draft

/-- A text after a keyword. -/
def afterKeyword (t : Text) : Draft := of t.keywordGap ++ of t

/-- A value after an equals sign. -/
def assigned (value : Text) : Draft := of value.equals ++ of value

end Draft
end TerseRuby
