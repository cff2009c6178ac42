/-!
# Decimal numerals

A numeral is read and written through its digits and a power of ten: `Decimal` holds a natural
number `digits` and an integer `power`, and stands for `digits · 10 ^ power`.  The sign is kept
elsewhere, because the zero of a binary number has one and that of a decimal has none.

* `Decimal.natText`, `Decimal.intText`: the numeral of a whole number;
* `Decimal.isLong`: whether that has more digits than are written;
* `Decimal.digitValue?`, `Decimal.natOf`: reading digits;
* `Decimal.Numeral`: a scanned numeral (sign, whole part, fraction, exponent), and its value.
-/

set_option autoImplicit false

namespace TerseRuby

/-- The number `digits · 10 ^ power`. -/
structure Decimal where
  /-- The significant digits, read as one natural number. -/
  digits : Nat
  /-- The power of ten that scales them. -/
  power : Int
  deriving DecidableEq, Repr

namespace Decimal

/-- A power of ten. -/
def tenPow (k : Nat) : Nat := Nat.pow 10 k

/-- The numeral of a natural number. -/
def natText (n : Nat) : List Char := Nat.toDigits 10 n

/-- The numeral of an integer: a minus sign and no blank before a negative one. -/
def intText : Int → List Char
  | .ofNat n => natText n
  | .negSucc n => '-' :: natText (n + 1)

/-- The number of digits up to which a whole number is written. -/
def digitLimit : Nat := 4300

/-- Whether a whole number has more digits than are written. -/
def isLong (n : Int) : Bool := digitLimit < (natText n.natAbs).length

/-- Whether a character is one of the ten digits. -/
def isDigit (c : Char) : Bool := '0' ≤ c && c ≤ '9'

/-- The value of a run of digits, most significant first. -/
def natOf (digits : List Char) : Nat :=
  digits.foldl (fun n c => n * 10 + (c.toNat - '0'.toNat)) 0

/-- A numeral as it stands in a text. -/
structure Numeral where
  /-- Whether a minus sign stands before it. -/
  negative : Bool
  /-- The digits before the point. -/
  whole : List Char
  /-- The digits after the point, if there is one. -/
  fraction : Option (List Char)
  /-- The sign and the digits of the exponent, if there is one. -/
  exponent : Option (Bool × List Char)
  deriving DecidableEq, Repr

namespace Numeral

/-- A numeral denotes a whole number when it has neither a point nor an exponent. -/
def isWhole (n : Numeral) : Bool := n.fraction.isNone && n.exponent.isNone

/-- The integer that a whole numeral denotes. -/
def toInt (n : Numeral) : Int :=
  let magnitude := Int.ofNat (natOf n.whole)
  if n.negative then -magnitude else magnitude

/-- The size of the number, without its sign. -/
def toDecimal (n : Numeral) : Decimal :=
  let fraction := n.fraction.getD []
  let shift : Int :=
    match n.exponent with
    | none => 0
    | some (true, digits) => -Int.ofNat (natOf digits)
    | some (false, digits) => Int.ofNat (natOf digits)
  ⟨natOf (n.whole ++ fraction), shift - fraction.length⟩

end Numeral

/-! ## Scanning -/

/-- The longest run of digits at the front, and what follows it. -/
def spanDigits (text : List Char) : List Char × List Char := text.span isDigit

/-- The fraction at the front: a point and at least one digit. -/
def scanFraction : List Char → Option (List Char) × List Char
  | '.' :: rest =>
    match spanDigits rest with
    | ([], _) => (none, '.' :: rest)
    | (digits, rest) => (some digits, rest)
  | text => (none, text)

/-- The sign at the front of an exponent, which may be left out, and what follows it. -/
def scanSign : List Char → Bool × List Char
  | '-' :: rest => (true, rest)
  | '+' :: rest => (false, rest)
  | text => (false, text)

/-- The exponent at the front: the letter e in either case, a sign if any, and digits. -/
def scanExponent : List Char → Option (Bool × List Char) × List Char
  | [] => (none, [])
  | e :: rest =>
    if e == 'e' || e == 'E' then
      match spanDigits (scanSign rest).2 with
      | ([], _) => (none, e :: rest)
      | (digits, tail) => (some ((scanSign rest).1, digits), tail)
    else (none, e :: rest)

/-- The whole part at the front: a single zero, or digits that do not start with one. -/
def scanWhole (text : List Char) : Option (List Char × List Char) :=
  match text with
  | '0' :: rest => some (['0'], rest)
  | text =>
    match spanDigits text with
    | ([], _) => none
    | (digits, rest) => some (digits, rest)

/-- The parts of a numeral after its sign, and what follows them. -/
def scanParts (negative : Bool) (text : List Char) : Option (Numeral × List Char) := do
  let (whole, text) ← scanWhole text
  let (fraction, text) := scanFraction text
  let (exponent, text) := scanExponent text
  return (⟨negative, whole, fraction, exponent⟩, text)

/-- The longest numeral at the front, and what follows it. -/
def scanNumeral : List Char → Option (Numeral × List Char)
  | '-' :: rest => scanParts true rest
  | text => scanParts false text

end Decimal
end TerseRuby
