import TerseRuby.Render.Operand
import TerseRuby.Tree.Display

/-!
# Arguments, elements and parameters

Argument lists, arrays and lists of conditions are made of the same elements: expressions, spread
values, named arguments and, at the end, a block argument.  A hash is made of entries and spread
hashes; an entry whose key is a symbol that can be written as a label is written so.

A parameter list has seven groups in a fixed order.  Writing it enters each name as a local
variable, so that a default may refer to the parameters before it.  A parameter with a default, or
given by name, shows whatever its name is; after a sign only a text can stand.
-/

set_option autoImplicit false

namespace TerseRuby
namespace Rules

/-- The failure that a value lacks a field, if it does. -/
def require (self : Value) (f : Field) : Writer Unit :=
  if self.kind?.any (·.has f) then pure ()
  else throw (.missingMember self.typeName f.spelling)

/-! ## Arguments -/

/-- Arguments, and a block argument after them if there is one. -/
def arguments (items : List Rendition) (blockArgument : Option Rendition) : Writer Text := do
  let parts ← (items ++ blockArgument.toList).mapM (·.text .argument)
  return Text.commaSeparated parts

/-- The block of a call, if it is one that is passed as an argument. -/
def blockArgument? (block : FieldRendition) : Option Rendition :=
  if block.value.isKind .blockArgument then some block.toRendition else none

/-- The elements of a hash or of named arguments. -/
def hashElements (elements : FieldRendition) : Writer Text := do
  let parts ← (← elements.sequence).mapM (·.text .hashElement)
  return Text.commaSeparated parts

/-- A spread value after its stars, or the stars alone. -/
def spread (stars : String) (value : FieldRendition) : Writer Text := do
  return Text.lit stars ++ (← value.ifPresent value.memberOperand)

/-- The label that the key of an entry can be written as. -/
def keyLabel? (key : Value) : Except Fault (Option Text) :=
  match key with
  | .node .symbol field =>
    match (field .value).text? with
    | some name => .ok ((Literal.label? name.toList).map Text.ofChars)
    | none => .error (.notSpelling (field .value).typeName)
  | _ => .ok none

/-- An entry of a hash. -/
def pair (c : Field → FieldRendition) : Writer Text := do
  match ← keyLabel? (c .key).value with
  | some label => return Text.joinLabel label (← (c .value).text .argument)
  | none =>
    let key ← (c .key).text .argument
    let value ← (c .value).text .argument
    return Text.joinInfix ((c .key).value.isKind .symbol) key "=>" value

/-- An element of a hash or of named arguments. -/
def hashElement (self : Value) (c : Field → FieldRendition) : Writer Text :=
  match self.kind? with
  | some .pair => pair c
  | some .doubleSplat => spread "**" (c .value)
  | _ => throw (.unsupported self.typeName (some .notHashElement))

/-- An element of an argument list, given how the value is written as an expression. -/
def argument (self : Value) (c : Field → FieldRendition) (asExpression : Writer Draft) :
    Writer Text :=
  match self.kind? with
  | some .splat => spread "*" (c .expression)
  | some .blockArgument => spread "&" (c .expression)
  | some .doubleSplat => hashElement self c
  | some .keywordHash => hashElements (c .elements)
  | _ => do
    let text ← asExpression.built
    let child ← self.operator?
    return text.grouped (child.any fun child => child.needsParensAt Operator.argumentRank)

/-! ## Parameters -/

/-- A parameter without a default, after its sign; it may have no name. -/
def parameter (self : Value) (c : Field → FieldRendition) (sign : String) : Writer Text := do
  require self .name
  let name := (c .name).value
  if !name.isTrue then return Text.lit sign
  Writer.declare name
  match name.text? with
  | some name => return Text.lit sign ++ Text.lit name
  | none => throw (.notAppendable name.typeName)

/-- A parameter with a default. -/
def optionalParameter (self : Value) (c : Field → FieldRendition) : Writer Text := do
  require self .name
  Writer.declare (c .name).value
  require self .value
  let value ← (c .value).text .argument
  return Text.lit (← (c .name).value.shown) ++ value.equals ++ value

/-- A parameter given by name, with a default or without. -/
def keywordParameter (self : Value) (c : Field → FieldRendition) : Writer Text := do
  require self .name
  Writer.declare (c .name).value
  let label := Text.lit (← (c .name).value.shown) ++ Text.lit ":"
  require self .value
  if (c .value).value.isNull then return label
  else return Text.joinLabel label (← (c .value).text .argument)

/-- The parameters of a group. -/
def parameterGroup (group : FieldRendition) (role : Role) : Writer (List Text) := do
  (← group.sequence).mapM (·.text role)

/-- A parameter that there is at most one of, after its sign. -/
def singleParameter (r : FieldRendition) (sign : String) : Writer (List Text) :=
  r.ifPresent do return [← r.text (.parameter sign)]

/-- A parameter list: its groups in order. -/
def parameters (self : Value) (c : Field → FieldRendition) : Writer Text := do
  require self .requireds
  let requireds ← parameterGroup (c .requireds) (.parameter "")
  let optionals ← parameterGroup (c .optionals) .optionalParameter
  let rest ← singleParameter (c .rest) "*"
  let posts ← parameterGroup (c .posts) (.parameter "")
  let keywords ← parameterGroup (c .keywords) .keywordParameter
  let keywordRest ← singleParameter (c .keywordRest) "**"
  let block ← singleParameter (c .block) "&"
  return Text.commaSeparated
    (requireds ++ optionals ++ rest ++ posts ++ keywords ++ keywordRest ++ block)

end Rules
end TerseRuby
