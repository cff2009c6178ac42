import TerseRuby.Character.Tables

/-!
# The character classes the language asks about

Ruby names may use any letter, so the questions "may this stand in a name?" and "is this a
capital?" are asked of all of Unicode and not of ASCII alone.

* `CharClass.isWord`: the characters of a name, the underscore included;
* `CharClass.isNameStart`: those that may also begin one;
* `CharClass.isDigit`: what a preceding sign would be glued to;
* `CharClass.isUppercase`: what makes a bare name read as a constant;
* `CharClass.isPrintable`: what a message shows without an escape.
-/

set_option autoImplicit false

namespace TerseRuby
namespace CharClass

/-- A letter, or a character with a numeric value. -/
def isAlphanumeric (c : Char) : Bool := CharSet.alphanumeric.contains c

/-- A character that may stand in a name. -/
def isWord (c : Char) : Bool := c == '_' || isAlphanumeric c

/-- A digit of a positional decimal numeral, in any script. -/
def isDecimalDigit (c : Char) : Bool := CharSet.decimalDigit.contains c

/-- A character that may begin a name: any word character but a decimal digit. -/
def isNameStart (c : Char) : Bool := isWord c && !isDecimalDigit c

/-- A character that shows a digit, superscripts and circled digits included. -/
def isDigit (c : Char) : Bool := CharSet.digit.contains c

/-- A capital. -/
def isUppercase (c : Char) : Bool := CharSet.uppercase.contains c

/-- A character that a message shows as it is. -/
def isPrintable (c : Char) : Bool := CharSet.printable.contains c

/-- A control character that would have to be escaped in a literal: everything below the space
but newline and tab, and the delete character. -/
def isControl (c : Char) : Bool :=
  (c.toNat < 0x20 && c != '\n' && c != '\t') || c.toNat == 0x7F

/-! ## Characters one by one

What holds of every character of a list is decided by going through the list.  A library may offer
to go through all characters there are, which takes far too long, so this has to be found first. -/

instance decidableForallMem {P : Char → Prop} [DecidablePred P] (cs : List Char) :
    Decidable (∀ c ∈ cs, P c) :=
  List.decidableBAll P cs

instance decidableForallMemOption {P : Char → Prop} [DecidablePred P] (o : Option Char) :
    Decidable (∀ c ∈ o, P c) :=
  Option.decidableForallMem o

/-! ## The ASCII range -/

/-- A fact about the ASCII characters can be checked code point by code point. -/
theorem forall_ascii {P : Char → Prop} (h : ∀ n, n < 128 → P (Char.ofNat n)) {c : Char}
    (hc : c.toNat < 128) : P c := by
  have := h c.toNat hc
  rwa [Char.ofNat_toNat] at this

end CharClass
end TerseRuby
