import TerseRuby.Render.Arguments
import TerseRuby.Render.Sequence

/-!
# Calls and blocks

A call is written in the form that `CallShape.of` finds for it.  A block attached to it is written
with `do` and `end`, or with braces where a `do` would be taken by the loop or jump around it; it
sees the local variables around it and keeps its own to itself.
-/

set_option autoImplicit false

namespace TerseRuby
namespace Rules

/-! ## Blocks -/

/-- A block attached to a call. -/
def block (c : Field → FieldRendition) : Writer Draft :=
  Writer.inInnerScope do
    let names ← (c .parameters).ifPresent ((c .parameters).text .parameters)
    let bars := if names.isEmpty then [] else Draft.lit "|" ++ Draft.of names ++ Draft.lit "|"
    if (← read).braceBlocks then
      let body ← (c .body).write (.body false)
      return Draft.lit "\x7b" ++ bars ++ body ++ Draft.lit "\x7d"
    else
      let gap := if names.isEmpty then [] else Draft.of [.optionalBlank]
      let body ← Writer.withBraces false (Sequence.clause (c .body))
      return Draft.lit " do" ++ gap ++ bars ++ body ++ Draft.lit "end"

/-- The literal block of a call, if it has one. -/
def attachedBlock (r : FieldRendition) : Writer Draft :=
  if r.value.isKind .block then r.write .block else pure []

/-! ## Operators -/

/-- An operator before its operand.  A sign is kept away from a number that it would be read into,
and a negation from a character that it would make another operator with. -/
def unaryCall (c : Field → FieldRendition) (op : Operator) : Writer Draft := do
  let operand ← (c .receiver).operand op .right
  match op with
  | .bang =>
    if operand.isEmpty then throw .emptyText
    let gap := if operand.startsWith (fun ch => ch == '~' || ch == '=') then Draft.lit " " else []
    return Draft.lit "!" ++ gap ++ Draft.of operand
  | .complement => return Draft.lit "~" ++ Draft.of operand
  | _ =>
    let sign := if op == .positive then "+" else "-"
    let glued := operand.startsWith CharClass.isDigit && (c .receiver).value.bindsToSign
    return Draft.lit sign ++ Draft.of (operand.grouped glued)

/-- An operator between two operands. -/
def binaryCall (c : Field → FieldRendition) (op : Operator) (argument : Rendition) :
    Writer Draft := do
  let left ← (c .receiver).operand op .left
  let right ← argument.operand op .right
  return Draft.of (Text.joinInfix ((c .receiver).value.isKind .symbol) left op.symbol right)

/-! ## Access and assignment -/

/-- The dot of a call. -/
def dot (c : Field → FieldRendition) : Draft :=
  if (c .safeNavigation).value.isTrue then Draft.lit "&." else Draft.lit "."

/-- An index in brackets. -/
def brackets (keys : Text) : Draft := Draft.lit "[" ++ Draft.of keys ++ Draft.lit "]"

/-- An assignment to an indexed place: the last argument is the value. -/
def indexAssignment (c : Field → FieldRendition) (keys : List Rendition) (value : Rendition) :
    Writer Draft := do
  let receiver ← (c .receiver).memberOperand
  let keys ← arguments keys none
  return Draft.of receiver ++ brackets keys ++ (← value.assignedValue)

/-- An assignment to an attribute. -/
def attributeAssignment (c : Field → FieldRendition) (value : Rendition) : Writer Draft := do
  let receiver ← (c .receiver).memberOperand
  let name := ((c .name).value.text?.getD "").toList.dropLast
  return Draft.of receiver ++ dot c ++ Draft.of (Text.ofChars name) ++ (← value.assignedValue)

/-- Access by index. -/
def indexAccess (c : Field → FieldRendition) : Writer Draft := do
  let receiver ← (c .receiver).memberOperand
  let keys ← arguments (← (c .arguments).sequence) (blockArgument? (c .block))
  return Draft.of receiver ++ brackets keys

/-! ## Plain calls -/

/-- Whether a name begins with a capital letter.  Only a text can; a sequence has a beginning, but
no case. -/
def isCapitalized : Value → Except Fault Bool
  | .scalar (.str name) => .ok (name.toList.head?.any CharClass.isUppercase)
  | .seq items => .error (.missingMember (Value.seq items).typeName "isupper")
  | name => .error (.notIndexed name.typeName)

/-- Whether a bare name would be read as a variable or a constant. -/
def readsAsVariable (s : Setting) (locals : Locals) (name : Value) : Except Fault Bool := do
  name.checkKey
  if locals.has s name then return true else isCapitalized name

/-- The arguments of a plain call in parentheses.  A call without receiver and arguments keeps an
empty pair if its name alone would be read as something else. -/
def argumentList (c : Field → FieldRendition) : Writer Draft := do
  let blockArgument := blockArgument? (c .block)
  if (c .arguments).value.isTrue || blockArgument.isSome then
    let list ← arguments (← (c .arguments).sequence) blockArgument
    return Draft.parenthesized (Draft.of list)
  else if !(c .receiver).value.isNull then return []
  else if ← readsAsVariable (← read) (← get) (c .name).value then return Draft.lit "()"
  else return []

/-- A call by name. -/
def plainCall (c : Field → FieldRendition) : Writer Draft := do
  let receiver ← (c .receiver).ifPresent do
    return Draft.of (← (c .receiver).memberOperand) ++ dot c
  let list ← argumentList c
  return receiver ++ Draft.word (c .name).value ++ list ++ (← attachedBlock (c .block))

/-- A call, in the form found for it. -/
def call (c : Field → FieldRendition) : Writer Draft := do
  let items := (c .arguments).elements
  match ← CallShape.of (fun f => (c f).value), items, items.getLast? with
  | .unary op, _, _ => unaryCall c op
  | .binary op, argument :: _, _ => binaryCall c op argument
  | .indexAssign, _, some value => indexAssignment c items.dropLast value
  | .attributeAssign, value :: _, _ => attributeAssignment c value
  | .index, _, _ => indexAccess c
  | _, _, _ => plainCall c

/-- A call of the overridden method.  Without an argument list it passes on the caller's arguments,
and a block argument then replaces only the block. -/
def superCall (c : Field → FieldRendition) : Writer Draft := do
  let blockArgument := blockArgument? (c .block)
  let list ←
    match (c .arguments).value.isNull, blockArgument with
    | false, _ => do
      let list ← arguments (← (c .arguments).sequence) blockArgument
      pure (Draft.parenthesized (Draft.of list))
    | true, some block => do pure (Draft.lit " " ++ Draft.of (← block.text .argument))
    | true, none => pure []
  return Draft.lit "super" ++ list ++ (← attachedBlock (c .block))

/-- A call of the block. -/
def yieldCall (c : Field → FieldRendition) : Writer Draft := do
  if (c .arguments).value.isTrue then
    let list ← arguments (← (c .arguments).sequence) none
    return Draft.lit "yield" ++ Draft.parenthesized (Draft.of list)
  else return Draft.lit "yield"

/-! ## Output calls -/

/-- The methods whose single argument may follow without parentheses. -/
def outputMethods : List String := ["puts", "print", "p", "pp", "require", "require_relative"]

/-- Whether an argument may follow the name of a method without parentheses. -/
def isOutputArgument (v : Value) : Bool :=
  v.isKind .string || v.isKind .interpolated || v.inGroup Kind.isBareWord

/-- Whether a call, as a statement, is written without parentheses: a method of output with one
string or variable, whose name is not that of a variable. -/
def isOutputCall (s : Setting) (locals : Locals) (field : Field → Value) : Except Fault Bool := do
  if !((field .receiver).isNull && CallShape.isUnadorned field) then return false
  (field .name).checkKey
  if !(field .name).text?.any outputMethods.contains then return false
  if locals.has s (field .name) then return false
  if (← (field .arguments).length) != 1 then return false
  return isOutputArgument (← (field .arguments).elementAt 0)

/-- A call of output, without parentheses. -/
def outputCall (c : Field → FieldRendition) (argument : Rendition) : Writer Draft := do
  let text ← argument.text .expression
  return Draft.word (c .name).value ++ Draft.afterKeyword text

end Rules
end TerseRuby
