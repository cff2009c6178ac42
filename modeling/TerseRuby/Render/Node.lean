import TerseRuby.Render.Call
import TerseRuby.Render.Control
import TerseRuby.Render.Definition
import TerseRuby.Render.Literal

/-!
# Every node in every role

This file collects the rules.  `Rules.expression` says how each kind of node is written as an
expression, `Rules.statement` how it is written as a statement, and `Rules.write` covers the other
roles.  They are plain functions of the renditions of the fields; `Value.rendition` builds the
rendition of a tree from those of its parts, which is the only recursion in the renderer.
-/

set_option autoImplicit false

namespace TerseRuby
namespace Rules

/-! ## Expressions -/

/-- Why a kind of node that has no rule for expressions cannot be one. -/
def misplacement : Option Kind → Option Misplacement
  | none => some .foreignValue
  | some .program => some .nestedProgram
  | some kind =>
    if kind.isTrivia then some .strayTrivia
    else if kind.isElement then some .strayElement
    else none

/-- The failure of a value that cannot be an expression. -/
def noRule (self : Value) : Writer Draft :=
  throw (.unsupported self.typeName (misplacement self.kind?))

/-- The statements of a sequence of statements. -/
def sequenceOf (file : Bool) (statements : FieldRendition) : Writer Draft := do
  let items ← statements.sequence
  Sequence.write file (items.map fun r => ⟨r.value, r.write .statement⟩)

/-- A value as an expression, without parentheses around it. -/
def expression (self : Value) (c : Field → FieldRendition) : Writer Draft :=
  match self.kind? with
  | some .methodDef => methodDef c
  | some .classDef => classDef c
  | some .singletonClass => singletonClass c
  | some .moduleDef => moduleDef c
  | some .ifThen => ifThen c
  | some .unlessThen => unlessThen c
  | some .caseOf => caseOf c
  | some .whileLoop => loop "while" c
  | some .untilLoop => loop "until" c
  | some .forLoop => forLoop c
  | some .beginBlock => beginBlock c
  | some .call => call c
  | some .logicalAnd =>
    if (c .keyword).value.isTrue then logical c .wordAnd true else logical c .conjunction false
  | some .logicalOr =>
    if (c .keyword).value.isTrue then logical c .wordOr true else logical c .disjunction false
  | some .logicalNot => negation c
  | some .returnJump => jump "return" c
  | some .breakJump => jump "break" c
  | some .nextJump => jump "next" c
  | some .yieldCall => yieldCall c
  | some .superCall => superCall c
  | some .integer => integer (c .value).value
  | some .float => float (c .value).value
  | some .trueLiteral => pure (Draft.lit "true")
  | some .falseLiteral => pure (Draft.lit "false")
  | some .nilLiteral => pure (Draft.lit "nil")
  | some .selfLiteral => pure (Draft.lit "self")
  | some .symbol => symbol (c .value).value
  | some .string => string (c .content).value
  | some .interpolated => interpolated c
  | some .array => array c
  | some .hash => hash c
  | some .range => range c
  | some .parentheses => do return Draft.parenthesized (← (c .body).write (.body false))
  | some .statements => sequenceOf false (c .body)
  | some .localRead => pure (Draft.word (c .name).value)
  | some .instanceRead => pure (Draft.word (c .name).value)
  | some .globalRead => pure (Draft.word (c .name).value)
  | some .constantRead => pure (Draft.word (c .name).value)
  | some .localWrite => localAssignment c
  | some .instanceWrite => assignment c
  | some .globalWrite => assignment c
  | some .constantWrite => assignment c
  | some .constantPath => constantPath c
  | some .operatorWrite => compoundAssignment c
  | _ => noRule self

/-! ## Statements -/

/-- A statement that has no shorter form of its own.  A hash at its beginning would be read as a
block, so the statement is then put in parentheses. -/
def plainStatement (self : Value) (c : Field → FieldRendition) : Writer Draft := do
  if ← self.startsWithBrace then
    return Draft.parenthesized (Draft.of (← (expression self c).built))
  else expression self c

/-- A conditional as a statement. -/
def conditionalStatement (keyword : String) (self : Value) (c : Field → FieldRendition) :
    Writer Draft := do
  if ← isPostfix (← read) (fun f => (c f).value) then postfixConditional keyword c
  else plainStatement self c

/-- A call as a statement. -/
def callStatement (self : Value) (c : Field → FieldRendition) : Writer Draft := do
  match ← isOutputCall (← read) (← get) (fun f => (c f).value), (c .arguments).elements with
  | true, argument :: _ => outputCall c argument
  | _, _ => plainStatement self c

/-- A value as a statement. -/
def statement (self : Value) (c : Field → FieldRendition) : Writer Draft :=
  match self.kind? with
  | some .ifThen => conditionalStatement "if" self c
  | some .unlessThen => conditionalStatement "unless" self c
  | some .call => callStatement self c
  | _ => plainStatement self c

/-- A value as the body of a construct or of a file. -/
def body (file : Bool) (self : Value) (c : Field → FieldRendition) : Writer Draft :=
  if self.isNull then pure []
  else if self.isKind .statements then sequenceOf file (c .body)
  else Sequence.write file [⟨self, statement self c⟩]

/-! ## All roles -/

/-- A value in any role. -/
def write (self : Value) (c : Field → FieldRendition) : Role → Writer Draft
  | .expression => expression self c
  | .statement => statement self c
  | .body file => body file self c
  | .argument => Draft.of <$> argument self c (expression self c)
  | .hashElement => Draft.of <$> hashElement self c
  | .whenClause => whenClause self c
  | .rescueClause => rescueClause self c
  | .elseBranch => elseBranch self c
  | .alternate => alternate self c
  | .ensureClause => ensureClause self c
  | .parameters => Draft.of <$> parameters self c
  | .parameter sign => Draft.of <$> parameter self c sign
  | .optionalParameter => Draft.of <$> optionalParameter self c
  | .keywordParameter => Draft.of <$> keywordParameter self c
  | .slot => (c .statements).write (.body false)
  | .loopVariable => loopVariable self c
  | .block => block c

end Rules

namespace Value

/-- A value without fields and how it is written. -/
def leafRendition (v : Value) : Rendition := ⟨v, Rules.write v fun _ => .absent⟩

/-- A value without fields, and the elements that it is made of if they have no fields either. -/
def leafFieldRendition (v : Value) : FieldRendition :=
  ⟨leafRendition v, v.elements.map leafRendition⟩

mutual

/-- A value and how it is written, from the same for all its parts. -/
def rendition : Value → FieldRendition
  | .node kind field =>
    ⟨⟨.node kind field, Rules.write (.node kind field) fun f => rendition (field f)⟩, []⟩
  | .seq items => ⟨leafRendition (.seq items), itemRenditions items⟩
  | .scalar s => leafFieldRendition (.scalar s)
  | .table entries => leafFieldRendition (.table entries)
  | .location l => leafFieldRendition (.location l)

/-- The items of a sequence and how they are written. -/
def itemRenditions : List Value → List Rendition
  | [] => []
  | v :: rest => (rendition v).toRendition :: itemRenditions rest

end

/-- A rendition is one of the value it was built from. -/
@[simp] theorem rendition_value (v : Value) : (rendition v).value = v := by
  cases v <;> rfl

/-- The renditions of the items of a sequence, item by item. -/
theorem itemRenditions_eq_map (items : List Value) :
    itemRenditions items = items.map fun v => (rendition v).toRendition := by
  induction items with
  | nil => rfl
  | cons v rest ih => simp [itemRenditions, ih]

/-- The elements of a rendition are renditions of the elements of its value. -/
theorem rendition_elements (v : Value) :
    (rendition v).elements.map Rendition.value = v.elements := by
  cases v with
  | node kind field => rfl
  | seq items => simp [rendition, itemRenditions_eq_map, elements, Function.comp_def]
  | scalar s => simp [rendition, leafFieldRendition, leafRendition, Function.comp_def]
  | table entries => simp [rendition, leafFieldRendition, leafRendition, Function.comp_def]
  | location l => simp [rendition, leafFieldRendition, leafRendition, Function.comp_def]

end Value
end TerseRuby
