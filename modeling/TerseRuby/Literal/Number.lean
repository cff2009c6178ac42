import TerseRuby.Fault
import TerseRuby.Scalar

/-!
# Number literals

An integer literal shows its value, whatever that is (`Value.shown`): the decimal numeral of an
integer, unless that has more digits than are written.  A floating-point literal is the shortest
numeral that reads back, with a bare exponent; the values that have no numeral are written as the
constants that name them.  A value of another numeric type is written as data would show it, up to
where an exponent would begin, if it can be converted at all.

The text of a literal begins with a minus sign exactly when `Literal.isNegative` holds of its value;
the rules for grouping rely on that, since a sign binds like an operator.
-/

set_option autoImplicit false

namespace TerseRuby
namespace Literal

/-- The text of a floating-point literal. -/
def float : Scalar → Except Fault (List Char)
  | .float x => .ok (NumberFormat.ruby.text x)
  | s =>
    match s.whole? with
    | some n =>
      if (Double.ofInt? n).isSome then .ok (s.display.toList.takeWhile (· != 'e'))
      else .error .numberTooLarge
    | none => .error (.notNumber s.typeName)

/-- Whether a scalar is a number, a truth value counting as one. -/
def isNumber : Scalar → Bool
  | .float _ => true
  | s => s.whole?.isSome

/-- Whether the text of a number literal begins with a minus sign. -/
def isNegative : Scalar → Bool
  | .int n => n < 0
  | .float x => x.isNegative
  | _ => false

end Literal
end TerseRuby
