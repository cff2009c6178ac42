import TerseRuby.Fault

/-!
# Operators and grouping

Every operator of the language has a rank: a higher one binds tighter.  Chains of operators of
equal rank group to the left or to the right, or do not chain at all.  From these facts follows
when an operand has to be put in parentheses so that it is read back as that operand
(`Operator.needsParens`).

* `Operator`: the operators, with their spelling (`Operator.symbol`).
* `Operator.facts`: rank, associativity, and two facts about chains of the same operator:
  whether regrouping leaves the value unchanged, and whether the parentheses are kept all the same.
* `Operator.needsParens`: the rule for an operand of another operator.
* `Operator.needsParensAt`: the rule for a place that has a rank but no operator, such as the
  receiver of a call or an argument.
-/

set_option autoImplicit false

namespace TerseRuby

/-- How operators of equal rank group. -/
inductive Associativity where
  /-- From the left. -/
  | left
  /-- From the right. -/
  | right
  /-- Not at all. -/
  | none
  deriving DecidableEq, Repr

/-- The name of an associativity. -/
def Associativity.name : Associativity → String
  | .left => "left"
  | .right => "right"
  | .none => "none"

/-- Which operand of an operator is meant. -/
inductive Side where
  /-- The left one. -/
  | left
  /-- The right one. -/
  | right
  /-- One that is on neither side. -/
  | inner
  deriving DecidableEq, Repr

/-- The side with a given name; any other name is on neither side. -/
def Side.ofName : String → Side
  | "left" => .left
  | "right" => .right
  | _ => .inner

/-- An operator. -/
inductive Operator where
  /-- Logical negation. -/
  | bang
  /-- Bitwise complement. -/
  | complement
  /-- Positive sign. -/
  | positive
  /-- Power. -/
  | power
  /-- Negative sign. -/
  | negative
  /-- Product. -/
  | times
  /-- Quotient. -/
  | divide
  /-- Remainder. -/
  | modulo
  /-- Sum. -/
  | plus
  /-- Difference. -/
  | minus
  /-- Left shift, or appending. -/
  | shiftLeft
  /-- Right shift. -/
  | shiftRight
  /-- Bitwise and. -/
  | bitAnd
  /-- Bitwise or. -/
  | bitOr
  /-- Bitwise exclusive or. -/
  | bitXor
  /-- Greater. -/
  | greater
  /-- Greater or equal. -/
  | greaterEqual
  /-- Less. -/
  | less
  /-- Less or equal. -/
  | lessEqual
  /-- Three-way comparison. -/
  | compare
  /-- Equality. -/
  | equal
  /-- Case equality. -/
  | caseEqual
  /-- Inequality. -/
  | notEqual
  /-- Pattern match. -/
  | patternMatch
  /-- Failure of a pattern match. -/
  | patternMiss
  /-- Conjunction. -/
  | conjunction
  /-- Disjunction. -/
  | disjunction
  /-- A range with its end. -/
  | inclusiveRange
  /-- A range without its end. -/
  | exclusiveRange
  /-- Assignment, plain or compound. -/
  | assign
  /-- Negation by keyword. -/
  | wordNot
  /-- Conjunction by keyword. -/
  | wordAnd
  /-- Disjunction by keyword. -/
  | wordOr
  deriving DecidableEq, Repr

namespace Operator

/-- The facts about an operator that decide how it is grouped. -/
structure Facts where
  /-- Its spelling; a sign is marked so that it differs from the binary operator. -/
  symbol : String
  /-- Its rank: a higher one binds tighter. -/
  precedence : Nat
  /-- How chains of its rank group. -/
  associativity : Associativity
  /-- Whether regrouping a chain of this operator leaves its value unchanged. -/
  associative : Bool
  /-- Whether an operand of the same operator keeps its parentheses even so. -/
  alwaysGroup : Bool
  deriving Repr

/-- The table of operators. -/
def facts : Operator → Facts
  | .bang => ⟨"!", 19, .right, false, false⟩
  | .complement => ⟨"~", 19, .right, false, false⟩
  | .positive => ⟨"+@", 19, .right, false, false⟩
  | .power => ⟨"**", 18, .right, false, true⟩
  | .negative => ⟨"-@", 17, .right, false, false⟩
  | .times => ⟨"*", 16, .left, false, true⟩
  | .divide => ⟨"/", 16, .left, false, true⟩
  | .modulo => ⟨"%", 16, .left, false, true⟩
  | .plus => ⟨"+", 15, .left, false, false⟩
  | .minus => ⟨"-", 15, .left, false, false⟩
  | .shiftLeft => ⟨"<<", 14, .left, false, false⟩
  | .shiftRight => ⟨">>", 14, .left, false, false⟩
  | .bitAnd => ⟨"&", 13, .left, false, false⟩
  | .bitOr => ⟨"|", 12, .left, false, false⟩
  | .bitXor => ⟨"^", 12, .left, false, false⟩
  | .greater => ⟨">", 11, .left, false, false⟩
  | .greaterEqual => ⟨">=", 11, .left, false, false⟩
  | .less => ⟨"<", 11, .left, false, false⟩
  | .lessEqual => ⟨"<=", 11, .left, false, false⟩
  | .compare => ⟨"<=>", 10, .none, false, false⟩
  | .equal => ⟨"==", 10, .none, false, false⟩
  | .caseEqual => ⟨"===", 10, .none, false, false⟩
  | .notEqual => ⟨"!=", 10, .none, false, false⟩
  | .patternMatch => ⟨"=~", 10, .none, false, false⟩
  | .patternMiss => ⟨"!~", 10, .none, false, false⟩
  | .conjunction => ⟨"&&", 9, .left, true, false⟩
  | .disjunction => ⟨"||", 8, .left, true, false⟩
  | .inclusiveRange => ⟨"..", 7, .none, false, false⟩
  | .exclusiveRange => ⟨"...", 7, .none, false, false⟩
  | .assign => ⟨"=", 4, .right, false, false⟩
  | .wordNot => ⟨"not", 3, .right, false, false⟩
  | .wordAnd => ⟨"and", 1, .left, true, false⟩
  | .wordOr => ⟨"or", 1, .left, true, false⟩

/-- All operators, in the order of the table. -/
def all : List Operator :=
  [.bang, .complement, .positive, .power, .negative, .times, .divide, .modulo, .plus, .minus,
   .shiftLeft, .shiftRight, .bitAnd, .bitOr, .bitXor, .greater, .greaterEqual, .less, .lessEqual,
   .compare, .equal, .caseEqual, .notEqual, .patternMatch, .patternMiss, .conjunction,
   .disjunction, .inclusiveRange, .exclusiveRange, .assign, .wordNot, .wordAnd, .wordOr]

/-- The spelling of an operator. -/
def symbol (op : Operator) : String := op.facts.symbol

/-- The rank of an operator. -/
def precedence (op : Operator) : Nat := op.facts.precedence

/-- The operator with a given spelling. -/
def ofSymbol? (s : String) : Option Operator := all.find? fun op => op.symbol == s

/-- No two operators are spelled alike. -/
theorem ofSymbol?_symbol (op : Operator) : ofSymbol? op.symbol = some op := by
  cases op <;> rfl

/-- The operator with a given spelling, or the failure that there is none. -/
def lookup (s : String) : Except Fault Operator :=
  match ofSymbol? s with
  | some op => .ok op
  | none => .error (.unknownOperator s)

/-- The operators that are methods with one operand. -/
def isUnaryMethod : Operator → Bool
  | .bang | .complement | .positive | .negative => true
  | _ => false

/-- The operators that are methods with two operands. -/
def isBinaryMethod : Operator → Bool
  | .power | .times | .divide | .modulo | .plus | .minus | .shiftLeft | .shiftRight | .bitAnd
  | .bitOr | .bitXor | .greater | .greaterEqual | .less | .lessEqual | .compare | .equal
  | .caseEqual | .notEqual | .patternMatch | .patternMiss => true
  | _ => false

/-! ## Grouping -/

/-- The rank of the place before a dot, an index or a scope: above that of every operator. -/
def memberRank : Int := 100

/-- The least rank that may stand bare as an argument or an element. -/
def argumentRank : Int := assign.precedence

/-- Whether an operand, itself an application of `child`, needs parentheses as an operand of
`parent`.  A lower rank does and a higher one does not; with equal ranks it depends on which side
the operators lean to, except that a chain of one associative operator may be regrouped. -/
def needsParens (child parent : Operator) (side : Side) : Bool :=
  if child.precedence != parent.precedence then child.precedence < parent.precedence
  else if child == parent && child.facts.associative && !child.facts.alwaysGroup then false
  else
    match parent.facts.associativity with
    | .left => side == .right
    | .right => side == .left
    | .none => true

/-- Whether an application of `child` needs parentheses in a place of the given rank. -/
def needsParensAt (child : Operator) (minimum : Int) : Bool := child.precedence < minimum

/-- `needsParens` for spellings; an operand that is no application never needs parentheses, and
then nothing is looked up. -/
def needsParensBySymbol (child : Option String) (parent : String) (side : Side) :
    Except Fault Bool := do
  match child with
  | none => return false
  | some child => return needsParens (← lookup child) (← lookup parent) side

/-- `needsParensAt` for a spelling. -/
def needsParensAtBySymbol (child : Option String) (minimum : Int) : Except Fault Bool := do
  match child with
  | none => return false
  | some child => return needsParensAt (← lookup child) minimum

/-- The spellings of the operators that need parentheses as an operand of `parent`. -/
def groupedUnder (parent : String) (side : Side) : Except Fault (List String) := do
  let parent ← lookup parent
  return (all.filter fun child => needsParens child parent side).map symbol

end Operator
end TerseRuby
