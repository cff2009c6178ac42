import TerseRuby.Render.Shape
import TerseRuby.Render.Spacing
import TerseRuby.Render.Writer

/-!
# Operands and operators

An operand is written like any expression, in parentheses if the table of operators asks for them
in its place.  This file has the places that an operand can be in, and the rules for the
expressions that are operators by their kind: conjunction, disjunction and negation, ranges, and
assignments.
-/

set_option autoImplicit false

namespace TerseRuby

namespace Rendition

/-- An operand of an operator. -/
def operand (r : Rendition) (parent : Operator) (side : Side) : Writer Text := do
  let text ← r.text .expression
  let child ← r.value.operator?
  return text.grouped (child.any fun child => child.needsParens parent side)

/-- What stands before a dot, an index or a scope, or after a star. -/
def memberOperand (r : Rendition) : Writer Text := do
  let text ← r.text .expression
  let child ← r.value.operator?
  return text.grouped (child.any fun child => child.needsParensAt Operator.memberRank)

/-- The value of an assignment, with the equals sign before it. -/
def assignedValue (r : Rendition) : Writer Draft := do
  return Draft.assigned (← r.operand .assign .right)

end Rendition

namespace Rules

/-- A conjunction or disjunction, in the spelling chosen. -/
def logical (c : Field → FieldRendition) (op : Operator) (asWord : Bool) : Writer Draft := do
  let left ← (c .left).operand op .left
  let right ← (c .right).operand op .right
  if asWord then return Draft.of left ++ Draft.lit (" " ++ op.symbol ++ " ") ++ Draft.of right
  else return Draft.of (Text.joinInfix ((c .left).value.isKind .symbol) left op.symbol right)

/-- A negation by keyword. -/
def negation (c : Field → FieldRendition) : Writer Draft := do
  let operand ← (c .expression).operand .wordNot .right
  return Draft.lit "not" ++ Draft.afterKeyword operand

/-- A range.  Where an end is missing it is put in parentheses, so that nothing after it is read as
that end. -/
def range (c : Field → FieldRendition) : Writer Draft := do
  let op := if (c .exclusive).value.isTrue then Operator.exclusiveRange else .inclusiveRange
  let left ← (c .left).ifPresent ((c .left).operand op .left)
  let right ← (c .right).ifPresent ((c .right).operand op .right)
  let isOpen := (c .left).value.isNull || (c .right).value.isNull
  return Draft.grouped isOpen (Draft.of left ++ Draft.lit op.symbol ++ Draft.of right)

/-- An assignment to a variable. -/
def assignment (c : Field → FieldRendition) : Writer Draft := do
  return Draft.word (c .name).value ++ (← (c .value).assignedValue)

/-- An assignment to a local variable, which is known from its own value on. -/
def localAssignment (c : Field → FieldRendition) : Writer Draft := do
  Writer.declare (c .name).value
  assignment c

/-- A compound assignment. -/
def compoundAssignment (c : Field → FieldRendition) : Writer Draft := do
  let target := (c .target).value
  if target.isKind .localRead then Writer.declare (target.field .name)
  let text ← (c .target).text .expression
  if text.isEmpty then throw .emptyText
  let gap := if text.endsWith Text.isNameMark then Draft.lit " " else []
  let value ← (c .value).operand .assign .right
  return Draft.of text ++ gap ++ Draft.word (c .operator).value ++ Draft.of value

/-- A constant looked up in a namespace, or at the top. -/
def constantPath (c : Field → FieldRendition) : Writer Draft := do
  let parent ← (c .parent).ifPresent (c .parent).memberOperand
  return Draft.of parent ++ Draft.lit "::" ++ Draft.word (c .name).value

end Rules
end TerseRuby
