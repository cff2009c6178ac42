import TerseRuby.Literal.Number
import TerseRuby.Literal.Symbol
import TerseRuby.Operator
import TerseRuby.Tree.Key
import TerseRuby.Tree.Traversal

/-!
# Questions about the shape of a tree

Before anything is written, the rules ask what a tree looks like.  All these questions are answered
from the tree alone.  Some of them fail where a field does not hold what it should: a name that
cannot be looked up, arguments that cannot be counted, a number literal without a number.

* `CallShape.of`: in which of six forms a call is written;
* `Value.operator?`: the operator that a tree is an application of, which decides about
  parentheses around it;
* `Value.startsWithBrace`: whether its text begins with a hash literal;
* `Value.bindsToSign`: whether a sign before its text would be read as part of a number;
* `Value.bodyStatements`: the statements of a body.
-/

set_option autoImplicit false

namespace TerseRuby

/-! ## Calls -/

/-- The form in which a call is written. -/
inductive CallShape where
  /-- An operator before its operand. -/
  | unary (op : Operator)
  /-- An operator between two operands. -/
  | binary (op : Operator)
  /-- An assignment to an indexed place. -/
  | indexAssign
  /-- An assignment to an attribute. -/
  | attributeAssign
  /-- Access by index. -/
  | index
  /-- A name, with arguments or without. -/
  | plain
  deriving DecidableEq, Repr

namespace CallShape

/-- The operator that a method name is, if the operator belongs to a group. -/
def methodOperator? (group : Operator → Bool) (name : Value) : Except Fault (Option Operator) := do
  name.checkKey
  return (name.text?.bind Operator.ofSymbol?).filter group

/-- Whether the arguments are a single value. -/
def isSingleValue (arguments : Value) : Except Fault Bool := do
  if (← arguments.length) != 1 then return false
  return !(← arguments.elementAt 0).inGroup Kind.isSpread

/-- Whether a name is that of a method that assigns an attribute. -/
def isSetterName (name : String) : Bool :=
  name.toList.getLast? == some '=' && Literal.isIdentifier name.toList.dropLast

/-- Whether a call with the given fields has neither a block nor a dot that skips an absent
receiver; both can only be written after a name. -/
def isUnadorned (field : Field → Value) : Bool :=
  (field .block).isNull && !(field .safeNavigation).isTrue

/-- The operator that is written before the receiver, if the call is of that form.  This and the
following questions are asked of calls with a receiver. -/
def unary? (field : Field → Value) : Except Fault (Option Operator) := do
  let op ← methodOperator? Operator.isUnaryMethod (field .name)
  return op.filter fun _ => !(field .arguments).isTrue && isUnadorned field

/-- The operator that is written between the receiver and the argument. -/
def binary? (field : Field → Value) : Except Fault (Option Operator) := do
  match ← methodOperator? Operator.isBinaryMethod (field .name) with
  | none => return none
  | some op =>
    let single ← isSingleValue (field .arguments)
    return if single && isUnadorned field then some op else none

/-- Whether the call assigns to an indexed place. -/
def isIndexAssign (field : Field → Value) : Except Fault Bool := do
  if (field .name).text? != some "[]=" then return false
  return (← (field .arguments).length) != 0 && isUnadorned field

/-- Whether the call assigns to an attribute.  The end of the name decides, so it has to be a
text. -/
def isAttributeAssign (field : Field → Value) : Except Fault Bool := do
  match (field .name).text? with
  | none => throw (.missingMember (field .name).typeName "endswith")
  | some name =>
    if !isSetterName name then return false
    return (← isSingleValue (field .arguments)) && (field .block).isNull

/-- Whether the call is access by index. -/
def isIndex (field : Field → Value) : Bool :=
  (field .name).text? == some "[]" && !(field .block).isKind .block
    && !(field .safeNavigation).isTrue

/-- The form of a call with the given fields. -/
def of (field : Field → Value) : Except Fault CallShape := do
  if (field .receiver).isNull then return .plain
  if let some op ← unary? field then return .unary op
  if let some op ← binary? field then return .binary op
  if ← isIndexAssign field then return .indexAssign
  if ← isAttributeAssign field then return .attributeAssign
  return if isIndex field then .index else .plain

/-- The operator that a call of some form is an application of. -/
def operator? : CallShape → Option Operator
  | .unary op => some op
  | .binary op => some op
  | .indexAssign => some .assign
  | .attributeAssign => some .assign
  | .index => none
  | .plain => none

end CallShape

namespace Value

/-! ## Operators -/

/-- The operator that a number literal with this value is an application of: the sign of a negative
one.  What is no number has no sign. -/
def signOperator? : Value → Except Fault (Option Operator)
  | .scalar s =>
    if Literal.isNumber s then .ok (if Literal.isNegative s then some .negative else none)
    else .error (.notOrdered s.typeName "int")
  | v => .error (.notOrdered v.typeName "int")

/-- The operator that a tree is an application of.  A negative number counts as one, because its
sign is read as an operator where something binds tighter. -/
def operator? : Value → Except Fault (Option Operator)
  | .node .call field => CallShape.operator? <$> CallShape.of field
  | .node .logicalAnd field =>
    .ok (some (if (field .keyword).isTrue then .wordAnd else .conjunction))
  | .node .logicalOr field =>
    .ok (some (if (field .keyword).isTrue then .wordOr else .disjunction))
  | .node .logicalNot _ => .ok (some .wordNot)
  | .node .range field =>
    if (field .left).isNull || (field .right).isNull then .ok none
    else .ok (some (if (field .exclusive).isTrue then .exclusiveRange else .inclusiveRange))
  | .node .localWrite _ => .ok (some .assign)
  | .node .instanceWrite _ => .ok (some .assign)
  | .node .globalWrite _ => .ok (some .assign)
  | .node .constantWrite _ => .ok (some .assign)
  | .node .operatorWrite _ => .ok (some .assign)
  | .node .integer field => (field .value).signOperator?
  | .node .float field => (field .value).signOperator?
  | _ => .ok none

/-- Whether a tree is a number literal. -/
def isNumber (v : Value) : Bool := v.isKind .integer || v.isKind .float

/-- Whether a sign written before a tree that begins with a digit would change what the sign
applies to.  A sign before a digit becomes part of the number, so it does, unless the tree is the
number itself or a power of it, which the language reads with the sign outside. -/
def bindsToSign : Value → Bool
  | .node .integer _ => false
  | .node .float _ => false
  | .node .call field =>
    match CallShape.of field with
    | .ok (.binary .power) => !(field .receiver).isNumber
    | _ => true
  | _ => true

/-- Whether the text of a tree begins with a hash literal. -/
def startsWithBrace : Value → Except Fault Bool
  | .node .hash _ => .ok true
  | .node .call field =>
    if (field .receiver).isNull then .ok false
    else
      match CallShape.unary? field with
      | .error fault => .error fault
      | .ok (some _) => .ok false
      | .ok none => startsWithBrace (field .receiver)
  | .node .logicalAnd field => startsWithBrace (field .left)
  | .node .logicalOr field => startsWithBrace (field .left)
  | .node .range field => startsWithBrace (field .left)
  | .node .operatorWrite field => startsWithBrace (field .target)
  | _ => .ok false

/-! ## Bodies -/

/-- The statements of a body: those of a sequence, none where there is no body, and a body that is
a single statement. -/
def bodyStatements : Value → Except Fault (List Value)
  | .scalar .null => .ok []
  | .node .statements field => (field .body).sequence
  | v => .ok [v]

end Value
end TerseRuby
