import TerseRuby.Number.Shortest

/-!
# Writing floating-point numbers

All texts of floating-point numbers show the digits of the shortest decimal that reads back
(`Double.shortest`).  A number whose leading digit stands between `10 ^ -4` and `10 ^ 15` is
written positionally and always with a fraction; any other in scientific form, with a point only
if there is more than one digit.  What differs between uses is kept in a `NumberFormat`: how an
exponent is spelled, and the words for the values that have no digits.

* `NumberFormat.plain`: the form used in messages and in data;
* `NumberFormat.json`: the same numerals, with the words that JSON text uses;
* `NumberFormat.ruby`: the form of a literal in the rendered program, where the exponent carries
  neither a plus sign nor a leading zero.
-/

set_option autoImplicit false

namespace TerseRuby

/-- The choices in which the texts of floating-point numbers differ. -/
structure NumberFormat where
  /-- The text for not-a-number. -/
  nan : String
  /-- The text for positive infinity; the negative one has a minus sign before it. -/
  infinity : String
  /-- Whether an exponent that is not negative has a plus sign. -/
  plusSign : Bool
  /-- The least number of digits in an exponent. -/
  exponentWidth : Nat
  deriving Repr

namespace NumberFormat

/-- Numbers in messages and in data. -/
def plain : NumberFormat := ⟨"nan", "inf", true, 2⟩

/-- Numbers in JSON text. -/
def json : NumberFormat := ⟨"NaN", "Infinity", true, 2⟩

/-- Number literals of the rendered program. -/
def ruby : NumberFormat := ⟨"Float::NAN", "Float::INFINITY", false, 1⟩

/-- The least power of ten at the leading digit that is written positionally. -/
def leastPositional : Int := -4

/-- The greatest power of ten at the leading digit that is written positionally. -/
def greatestPositional : Int := 15

/-- A decimal's significant digits without zeros at the end, and the power of ten at the first. -/
def significant (x : Decimal) : List Char × Int :=
  let all := Decimal.natText x.digits
  let kept := (all.reverse.dropWhile (· == '0')).reverse
  (if kept.isEmpty then ['0'] else kept, all.length - 1 + x.power)

/-- Digits with the point placed so that the first stands at `10 ^ lead`, and at least one digit
after the point. -/
def positional (digits : List Char) (lead : Int) : List Char :=
  if lead < 0 then '0' :: '.' :: List.replicate (-lead - 1).toNat '0' ++ digits
  else
    let before := lead.toNat + 1
    let whole := digits.take before ++ List.replicate (before - digits.length) '0'
    let fraction := digits.drop before
    whole ++ '.' :: (if fraction.isEmpty then ['0'] else fraction)

/-- The exponent of the scientific form. -/
def exponent (format : NumberFormat) (lead : Int) : List Char :=
  let digits := Decimal.natText lead.natAbs
  let sign := if lead < 0 then ['-'] else if format.plusSign then ['+'] else []
  'e' :: sign ++ List.replicate (format.exponentWidth - digits.length) '0' ++ digits

/-- Digits in scientific form. -/
def scientific (format : NumberFormat) (digits : List Char) (lead : Int) : List Char :=
  let mantissa :=
    match digits with
    | first :: rest@(_ :: _) => first :: '.' :: rest
    | digits => digits
  mantissa ++ format.exponent lead

/-- A decimal's text. -/
def decimalText (format : NumberFormat) (x : Decimal) : List Char :=
  let (digits, lead) := significant x
  if leastPositional ≤ lead && lead ≤ greatestPositional then positional digits lead
  else format.scientific digits lead

/-- A text with a minus sign before it, if one is wanted. -/
def signed (negative : Bool) (text : List Char) : List Char :=
  if negative then '-' :: text else text

/-- A floating-point number's text. -/
def text (format : NumberFormat) : Double → List Char
  | .nan => format.nan.toList
  | .infinity negative => signed negative format.infinity.toList
  | .finite negative exponent fraction =>
    signed negative (format.decimalText (Double.shortest exponent fraction))

end NumberFormat

/-- The number that a text written in the plain form denotes. -/
def Double.ofText? (text : String) : Option Double :=
  match text with
  | "nan" => some .nan
  | "inf" => some (.infinity false)
  | "-inf" => some (.infinity true)
  | text =>
    match Decimal.scanNumeral text.toList with
    | some (n, []) => some (Double.ofNumeral n)
    | _ => none

end TerseRuby
