import TerseRuby.Number.Decimal

/-!
# Binary floating-point numbers

The floating-point numbers of a parse tree are the values of the 64-bit binary format.  Nothing
is ever computed with them: they are read from a decimal numeral, compared, and written.  So they
are kept as what the format says they are, and every operation on them is exact arithmetic on
natural numbers.

* `Double`: a sign, an exponent field and a fraction field, or an infinity, or not a number.
  Every combination of fields is a different number, so two values are identical exactly when
  they are equal as Lean terms.
* `Double.magnitude`: a finite number's size as a fraction of two natural numbers.
* `Double.ofRatio`: the nearest number to a fraction, a tie going to the even one.
* `Double.ofDecimal`: the nearest number to a decimal numeral.
* `Double.sameNumber`, `Double.equalsInt`: equality of values, which holds between the two zeros
  and never for not-a-number.
-/

set_option autoImplicit false

namespace TerseRuby

/-- The number of values of the fraction field: two to the power 52. -/
abbrev Double.fractions : Nat := 4503599627370496

/-- A value of the 64-bit binary floating-point format. -/
inductive Double where
  /-- Not a number. -/
  | nan
  /-- One of the two infinities. -/
  | infinity (negative : Bool)
  /-- A finite number, by the fields of the format. -/
  | finite (negative : Bool) (exponent : Fin 2047) (fraction : Fin Double.fractions)
  deriving DecidableEq, Repr

namespace Double

/-! ## The value of a finite number -/

/-- A power of two. -/
def twoPow (k : Nat) : Nat := Nat.pow 2 k

/-- How many of the smallest positive number make up one. -/
def unit : Nat := twoPow 1074

/-- The whole number that the fields scale: a hidden leading one is present unless the exponent
field is zero. -/
def significand (exponent : Fin 2047) (fraction : Fin Double.fractions) : Nat :=
  if exponent.val = 0 then fraction.val else fractions + fraction.val

/-- The power of two, counted from the smallest one, that scales the significand. -/
def scale (exponent : Fin 2047) : Nat := exponent.val - 1

/-- The size of a finite number as numerator and denominator. -/
def magnitude (exponent : Fin 2047) (fraction : Fin Double.fractions) : Nat × Nat :=
  (significand exponent fraction * twoPow (scale exponent), unit)

/-- Zero with the given sign. -/
def zero (negative : Bool) : Double := .finite negative 0 0

/-- Whether the number carries a minus sign; not-a-number never does. -/
def isNegative : Double → Bool
  | .nan => false
  | .infinity negative => negative
  | .finite negative _ _ => negative

/-- Whether the number is a zero, of either sign. -/
def isZero : Double → Bool
  | .finite _ exponent fraction => exponent.val == 0 && fraction.val == 0
  | _ => false

/-! ## Rounding -/

/-- The quotient rounded to the nearest whole number, a tie going to the even one. -/
def roundQuotient (n d : Nat) : Nat :=
  let q := n / d
  let r := n % d
  if 2 * r < d then q else if d < 2 * r then q + 1 else q + q % 2

/-- The finite number at a place in the increasing sequence of all non-negative numbers, or
infinity past its end. -/
def ofRank (negative : Bool) (rank : Nat) : Double :=
  if h : rank / fractions < 2047 then
    .finite negative ⟨rank / fractions, h⟩ ⟨rank % fractions, Nat.mod_lt _ (by decide)⟩
  else .infinity negative

/-- The exponent, counted from the smallest one, of the binade in which `n / d` lies: the numbers
around `n / d` are the whole multiples of `twoPow (binade n d) / unit`. -/
def binade (n d : Nat) : Nat := (n * unit / d).log2 - 52

/-- The number nearest to `n / d`, a tie going to the one with the even significand. -/
def ofRatio (negative : Bool) (n d : Nat) : Double :=
  let shift := binade n d
  ofRank negative (shift * fractions + roundQuotient (n * unit) (d * twoPow shift))

/-- The number nearest to a decimal.  A decimal whose leading digit stands far outside the range
of the format is answered without computing its power of ten. -/
def ofDecimal (negative : Bool) (x : Decimal) : Double :=
  let size := (Decimal.natText x.digits).length + x.power
  if x.digits = 0 then zero negative
  else if 400 < size then .infinity negative
  else if size < -400 then zero negative
  else if 0 ≤ x.power then ofRatio negative (x.digits * Decimal.tenPow x.power.toNat) 1
  else ofRatio negative x.digits (Decimal.tenPow (-x.power).toNat)

/-- The number that a numeral denotes. -/
def ofNumeral (n : Decimal.Numeral) : Double := ofDecimal n.negative n.toDecimal

/-- The number nearest to an integer; `none` when that would be an infinity. -/
def ofInt? (n : Int) : Option Double :=
  match ofRatio (n < 0) n.natAbs 1 with
  | .infinity _ => none
  | x => some x

/-! ## Comparing values -/

/-- Equality of values: both zeros are equal, and not-a-number equals nothing. -/
def sameNumber : Double → Double → Bool
  | .nan, _ => false
  | _, .nan => false
  | x, y => (x.isZero && y.isZero) || x == y

/-- Whether a number is exactly a given integer. -/
def equalsInt : Double → Int → Bool
  | .finite negative exponent fraction, n =>
    let (num, den) := magnitude exponent fraction
    let signed : Int := if negative then -Int.ofNat num else Int.ofNat num
    signed == n * Int.ofNat den
  | _, _ => false

end Double
end TerseRuby
