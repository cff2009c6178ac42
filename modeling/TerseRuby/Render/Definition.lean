import TerseRuby.Render.Operand
import TerseRuby.Render.Sequence

/-!
# Definitions

Methods, classes and modules.  The body of a definition starts with no local variables but its own
parameters, and those it assigns are forgotten after it.
-/

set_option autoImplicit false

namespace TerseRuby
namespace Rules

open Sequence (clause)

/-- The object that a method is defined on, with the dot after it; anything but a variable, a
constant or `self` is put in parentheses. -/
def methodReceiver (receiver : FieldRendition) : Writer Draft := do
  let text ← receiver.text .expression
  let isBare := receiver.value.isKind .selfLiteral || receiver.value.inGroup Kind.isBareWord
  return Draft.of (text.grouped (!isBare)) ++ Draft.lit "."

/-- A method definition. -/
def methodDef (c : Field → FieldRendition) : Writer Draft := do
  let receiver ← (c .receiver).ifPresent (methodReceiver (c .receiver))
  let rest ← Writer.inNewScope do
    let names ← (c .parameters).ifPresent ((c .parameters).text .parameters)
    let body ← clause (c .body)
    return Draft.grouped (!names.isEmpty) (Draft.of names) ++ body
  return Draft.lit "def " ++ receiver ++ Draft.word (c .name).value ++ rest ++ Draft.lit "end"

/-- A class definition. -/
def classDef (c : Field → FieldRendition) : Writer Draft := do
  let path ← (c .constantPath).text .expression
  let superclass ← (c .superclass).ifPresent do
    return Draft.lit "<" ++ Draft.of (← (c .superclass).memberOperand)
  let body ← Writer.inNewScope (clause (c .body))
  return Draft.lit "class " ++ Draft.of path ++ superclass ++ body ++ Draft.lit "end"

/-- The opening of the class of one object. -/
def singletonClass (c : Field → FieldRendition) : Writer Draft := do
  let object ← (c .expression).memberOperand
  let body ← Writer.inNewScope (clause (c .body))
  return Draft.lit "class<<" ++ Draft.of object ++ body ++ Draft.lit "end"

/-- A module definition. -/
def moduleDef (c : Field → FieldRendition) : Writer Draft := do
  let path ← (c .constantPath).text .expression
  let body ← Writer.inNewScope (clause (c .body))
  return Draft.lit "module " ++ Draft.of path ++ body ++ Draft.lit "end"

end Rules
end TerseRuby
