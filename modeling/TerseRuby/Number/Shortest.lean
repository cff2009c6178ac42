import TerseRuby.Number.Double

/-!
# The shortest decimal that reads back

A floating-point number is written with the fewest significant digits from which it can be read
back.  For one digit, then two, and so on, `Double.shortest` looks at the two decimals of that
many digits next to the number; the first length at which one of them reads back wins, and if both
do, the nearer, a tie going to the even one.  Seventeen digits always suffice for the format.

Whether a candidate reads back is decided by reading it (`Double.ofDecimal`), and the search ends
in the exact decimal expansion of the number, so `Double.shortest` returns a decimal that reads
back without any analysis of rounding intervals.
-/

set_option autoImplicit false

namespace TerseRuby
namespace Double

/-- The most digits the search tries before it falls back on the exact expansion. -/
def maxDigits : Nat := 17

/-- How far numbers are scaled up so that their leading digit can be found by counting: every
positive number of the format is above ten to the power -330. -/
def leadingScale : Nat := 330

/-- The power of ten of the leading digit of `n / d`. -/
def leadingPower (n d : Nat) : Int :=
  (Decimal.natText (n * Decimal.tenPow leadingScale / d)).length - 1 - leadingScale

/-- The two decimals with last digit at `power` that enclose `n / d`, the nearer one first; equal
distances put the even one first. -/
def neighbours (n d : Nat) (power : Int) : List Decimal :=
  let n' := n * Decimal.tenPow (-power).toNat
  let d' := d * Decimal.tenPow power.toNat
  let low := n' / d'
  let r := n' % d'
  if 2 * r < d' || (2 * r == d' && low % 2 == 0) then [⟨low, power⟩, ⟨low + 1, power⟩]
  else [⟨low + 1, power⟩, ⟨low, power⟩]

/-- A power of five. -/
def fivePow (k : Nat) : Nat := Nat.pow 5 k

/-- The exact expansion of a finite number: a unit fraction of two becomes one of ten when it is
multiplied by the same power of five. -/
def exactDecimal (exponent : Fin 2047) (fraction : Fin fractions) : Decimal :=
  ⟨significand exponent fraction * twoPow (scale exponent) * fivePow 1074, -1074⟩

/-- The first decimal next to `n / d` that passes a test: of one digit, or else of two, and so
on. -/
def firstPassing? (test : Decimal → Bool) (n d : Nat) : Option Decimal :=
  (List.range maxDigits).findSome? fun i =>
    (neighbours n d (leadingPower n d - Int.ofNat i)).find? test

/-- Whether a decimal reads back as the finite number with these fields. -/
def readsBack (exponent : Fin 2047) (fraction : Fin fractions) (x : Decimal) : Bool :=
  ofDecimal false x == .finite false exponent fraction

/-- The shortest decimal that reads back as the finite number with these fields. -/
def shortest (exponent : Fin 2047) (fraction : Fin fractions) : Decimal :=
  let size := magnitude exponent fraction
  if size.1 = 0 then ⟨0, 0⟩
  else
    (firstPassing? (readsBack exponent fraction) size.1 size.2).getD
      (exactDecimal exponent fraction)

end Double
end TerseRuby
