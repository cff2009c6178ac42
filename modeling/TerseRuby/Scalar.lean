import TerseRuby.Character.CodePoint
import TerseRuby.Number.Format

/-!
# Scalars

The leaves of parse trees and of JSON documents are the same five kinds of value.  The texts among
them are of any type of texts `σ`; where none is named they are strings.  A scalar has

* a *type name*, by which messages call it (`Scalar.typeName`);
* a *truth*, by which a setting given as data is read (`Scalar.isTrue`);
* a *display*, the text that stands for it inside a message or a literal (`Scalar.display`);
* an *equality of values* (`Scalar.same`), which compares numbers of different types by the
  number they denote, a truth value counting as zero or one.  Not-a-number is equal to nothing,
  except where it is known to be a single value (`Scalar.sameOrNaN`).
-/

set_option autoImplicit false

namespace TerseRuby

/-- An atomic value. -/
inductive Scalar (σ : Type := String) where
  /-- No value. -/
  | null
  /-- A truth value. -/
  | bool (b : Bool)
  /-- A whole number of any size. -/
  | int (n : Int)
  /-- A floating-point number. -/
  | float (x : Double)
  /-- A text. -/
  | str (s : σ)
  deriving DecidableEq, Repr

namespace Scalar

variable {σ : Type}

/-- The same scalar with its text as one of another type. -/
def mapText {τ : Type} (f : σ → τ) : Scalar σ → Scalar τ
  | .null => .null
  | .bool b => .bool b
  | .int n => .int n
  | .float x => .float x
  | .str s => .str (f s)

/-- The name that messages give to the type of a scalar. -/
def typeName : Scalar σ → String
  | .null => "NoneType"
  | .bool _ => "bool"
  | .int _ => "int"
  | .float _ => "float"
  | .str _ => "str"

/-- Whether a scalar counts as true: not null, false, a zero or the empty text. -/
def isTrue : Scalar → Bool
  | .null => false
  | .bool b => b
  | .int n => n != 0
  | .float x => !x.isZero
  | .str s => !s.isEmpty

/-- The text that stands for a scalar. -/
def display : Scalar → String
  | .null => "None"
  | .bool true => "True"
  | .bool false => "False"
  | .int n => String.ofList (Decimal.intText n)
  | .float x => String.ofList (NumberFormat.plain.text x)
  | .str s => s

/-- Whether a scalar is a whole number with more digits than are written. -/
def isLong : Scalar σ → Bool
  | .int n => Decimal.isLong n
  | _ => false

/-- The whole number that a truth value or an integer counts as. -/
def whole? : Scalar σ → Option Int
  | .bool b => some (if b then 1 else 0)
  | .int n => some n
  | _ => none

/-- Equality of values. -/
def same [DecidableEq σ] : Scalar σ → Scalar σ → Bool
  | .null, .null => true
  | .str a, .str b => a == b
  | .float x, .float y => x.sameNumber y
  | .float x, b => b.whole?.any x.equalsInt
  | a, .float y => a.whole?.any y.equalsInt
  | a, b =>
    match a.whole?, b.whole? with
    | some m, some n => m == n
    | _, _ => false

/-- Whether a scalar is the floating-point value that is no number. -/
def isNaN [DecidableEq σ] (s : Scalar σ) : Bool := s == .float .nan

/-- Equality of values where there is only one not-a-number, which then is the same as itself. -/
def sameOrNaN [DecidableEq σ] (a b : Scalar σ) : Bool := a.same b || (a.isNaN && b.isNaN)

end Scalar
end TerseRuby
