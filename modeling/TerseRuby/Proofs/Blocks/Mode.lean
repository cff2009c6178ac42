import TerseRuby.Proofs.Rendering.Punctuation
import TerseRuby.Proofs.Tree.Shape

/-!
# Every rule, with blocks in braces

Whether a block is written with braces or with `do` is a mode that is set from outside, around the
header of a loop and the values of a jump, and it is to reach every block in there, however deep.
So it has to be passed on by every rule.  This file says that it is: `Writer.withBraces true`
commutes with every rule of the renderer, in the sense that a rule under braces is the same rule
whose parts are written under braces (`Rules.writeWith_braced`).

The one exception is the rule for blocks, which looks at the mode.  `Rules.blockWith` is that rule
with any other form in the place of the one with `do`, and under braces it is the form with braces
(`Rules.blockWith_braced`), whatever that other form is.
-/

set_option autoImplicit false

namespace TerseRuby

/-! ## Writers under braces -/

namespace Writer

variable {α β γ : Type} (b : Bool)

@[simp] theorem withBraces_pure (a : α) : withBraces b (pure a) = pure a := rfl

@[simp] theorem withBraces_throw (fault : Fault) :
    withBraces b (throw fault : Writer α) = throw fault := rfl

@[simp] theorem withBraces_bind (w : Writer α) (f : α → Writer β) :
    withBraces b (w >>= f) = withBraces b w >>= fun a => withBraces b (f a) := rfl

@[simp] theorem withBraces_ite (p : Prop) [Decidable p] (w w' : Writer α) :
    withBraces b (if p then w else w') = if p then withBraces b w else withBraces b w' :=
  apply_ite (withBraces b) p w w'

@[simp] theorem withBraces_liftM (e : Except Fault α) :
    withBraces b (liftM e : Writer α) = liftM e := rfl

@[simp] theorem withBraces_get : withBraces b (get : Writer Locals) = get := rfl

@[simp] theorem withBraces_declare (name : Value) : withBraces b (declare name) = declare name :=
  rfl

@[simp] theorem withBraces_withLocals (start : Locals → Locals) (w : Writer α) :
    withBraces b (withLocals start w) = withLocals start (withBraces b w) := rfl

@[simp] theorem withBraces_withBraces (b' : Bool) (w : Writer α) :
    withBraces b (withBraces b' w) = withBraces b' w := rfl

@[simp] theorem withBraces_built (w : Writer Draft) :
    withBraces b (built w) = built (withBraces b w) := rfl

/-- A question about the setting that the mode does not matter to. -/
theorem withBraces_read_bind {f : Setting → Writer α}
    (h : ∀ s, f { s with braceBlocks := b } = f s) :
    withBraces b (read >>= f) = read >>= fun s => withBraces b (f s) := by
  funext s
  exact congrFun (h s) { s with braceBlocks := b }

@[simp] theorem withBraces_mapM (xs : List γ) (f : γ → Writer α) :
    withBraces b (xs.mapM f) = xs.mapM fun x => withBraces b (f x) := by
  induction xs with
  | nil => rfl
  | cons x xs ih => simp [ih]

end Writer

open Writer (withBraces)

/-! ## Renditions under braces -/

/-- A value, written with its blocks in braces. -/
def Rendition.braced (r : Rendition) : Rendition :=
  ⟨r.value, fun role => withBraces true (r.write role)⟩

/-- What stands in a field, written with its blocks in braces. -/
def FieldRendition.braced (r : FieldRendition) : FieldRendition :=
  ⟨r.toRendition.braced, r.elements.map Rendition.braced⟩

/-- The parts of a node, written with their blocks in braces. -/
def braced (c : Field → FieldRendition) (f : Field) : FieldRendition := (c f).braced

namespace Rendition

@[simp] theorem value_braced (r : Rendition) : r.braced.value = r.value := rfl

@[simp] theorem write_braced (r : Rendition) (role : Role) :
    r.braced.write role = withBraces true (r.write role) := rfl

@[simp] theorem text_braced (r : Rendition) (role : Role) :
    r.braced.text role = withBraces true (r.text role) := rfl

@[simp] theorem operand_braced (r : Rendition) (parent : Operator) (side : Side) :
    r.braced.operand parent side = withBraces true (r.operand parent side) := rfl

@[simp] theorem memberOperand_braced (r : Rendition) :
    r.braced.memberOperand = withBraces true r.memberOperand := rfl

@[simp] theorem assignedValue_braced (r : Rendition) :
    r.braced.assignedValue = withBraces true r.assignedValue := rfl

end Rendition

namespace FieldRendition

@[simp] theorem toRendition_braced (r : FieldRendition) :
    r.braced.toRendition = r.toRendition.braced := rfl

@[simp] theorem elements_braced (r : FieldRendition) :
    r.braced.elements = r.elements.map Rendition.braced := rfl

@[simp] theorem sequence_braced (r : FieldRendition) :
    r.braced.sequence = List.map Rendition.braced <$> r.sequence := by
  rw [sequence, sequence, apply_ite (List.map Rendition.braced <$> ·)]
  rfl

@[simp] theorem withBraces_sequence (b : Bool) (r : FieldRendition) :
    withBraces b r.sequence = r.sequence := by
  simp [sequence]

@[simp] theorem ifPresent_braced {α : Type} (r : FieldRendition) (w : Writer (List α)) :
    r.braced.ifPresent w = r.ifPresent w := rfl

@[simp] theorem withBraces_ifPresent {α : Type} (b : Bool) (r : FieldRendition)
    (w : Writer (List α)) : withBraces b (r.ifPresent w) = r.ifPresent (withBraces b w) := by
  simp [ifPresent]

end FieldRendition

@[simp] theorem braced_apply (c : Field → FieldRendition) (f : Field) :
    braced c f = (c f).braced := rfl

variable (c : Field → FieldRendition)

namespace Rules

/-! ## Operands and operators -/

theorem logical_braced (op : Operator) (asWord : Bool) :
    logical (braced c) op asWord = withBraces true (logical c op asWord) := by
  simp [logical]

theorem negation_braced : negation (braced c) = withBraces true (negation c) := rfl

theorem range_braced : range (braced c) = withBraces true (range c) := by
  simp [range]
  rfl

theorem assignment_braced : assignment (braced c) = withBraces true (assignment c) := rfl

theorem localAssignment_braced :
    localAssignment (braced c) = withBraces true (localAssignment c) := rfl

theorem compoundAssignment_braced :
    compoundAssignment (braced c) = withBraces true (compoundAssignment c) := by
  simp [compoundAssignment]

theorem constantPath_braced : constantPath (braced c) = withBraces true (constantPath c) := by
  simp [constantPath]

/-! ## Arguments, elements and parameters -/

@[simp] theorem arguments_braced (items : List Rendition) (blockArgument : Option Rendition) :
    arguments (items.map Rendition.braced) (blockArgument.map Rendition.braced) =
      withBraces true (arguments items blockArgument) := by
  rcases blockArgument with _ | block <;> simp [arguments, Function.comp_def]

@[simp] theorem arguments_none_braced (items : List Rendition) :
    arguments (items.map Rendition.braced) none = withBraces true (arguments items none) :=
  arguments_braced items none

@[simp] theorem blockArgument?_braced (block : FieldRendition) :
    blockArgument? block.braced = (blockArgument? block).map Rendition.braced := by
  rw [blockArgument?, blockArgument?, apply_ite (Option.map Rendition.braced)]
  rfl

@[simp] theorem hashElements_braced (elements : FieldRendition) :
    hashElements elements.braced = withBraces true (hashElements elements) := by
  simp [hashElements, Function.comp_def]

@[simp] theorem spread_braced (stars : String) (value : FieldRendition) :
    spread stars value.braced = withBraces true (spread stars value) := by
  simp [spread]

theorem pair_braced : pair (braced c) = withBraces true (pair c) := by
  rw [pair, pair, Writer.withBraces_bind]
  refine bind_congr fun label => ?_
  cases label <;> rfl

theorem hashElement_braced (v : Value) :
    hashElement v (braced c) = withBraces true (hashElement v c) := by
  rw [hashElement, hashElement]
  split
  · exact pair_braced c
  · exact spread_braced "**" (c .value)
  · rfl

theorem argument_braced (v : Value) (w : Writer Draft) :
    argument v (braced c) (withBraces true w) = withBraces true (argument v c w) := by
  rw [argument, argument]
  split
  · exact spread_braced "*" (c .expression)
  · exact spread_braced "&" (c .expression)
  · exact hashElement_braced c v
  · exact hashElements_braced (c .elements)
  · rfl

@[simp] theorem withBraces_require (b : Bool) (v : Value) (f : Field) :
    withBraces b (require v f) = require v f := by
  simp [require]

theorem parameter_braced (v : Value) (sign : String) :
    parameter v (braced c) sign = withBraces true (parameter v c sign) := by
  simp only [parameter, braced_apply, Writer.withBraces_bind, withBraces_require,
    Writer.withBraces_ite]
  refine bind_congr fun _ => ?_
  congr 2
  funext _
  have hname : (c .name).braced.value = (c .name).value := rfl
  rw [hname]
  cases (c .name).value.text? <;> rfl

theorem optionalParameter_braced (v : Value) :
    optionalParameter v (braced c) = withBraces true (optionalParameter v c) := by
  simp [optionalParameter]

theorem keywordParameter_braced (v : Value) :
    keywordParameter v (braced c) = withBraces true (keywordParameter v c) := by
  simp [keywordParameter]

@[simp] theorem parameterGroup_braced (group : FieldRendition) (role : Role) :
    parameterGroup group.braced role = withBraces true (parameterGroup group role) := by
  simp [parameterGroup, Function.comp_def]

@[simp] theorem singleParameter_braced (r : FieldRendition) (sign : String) :
    singleParameter r.braced sign = withBraces true (singleParameter r sign) := by
  simp [singleParameter]

theorem parameters_braced (v : Value) :
    parameters v (braced c) = withBraces true (parameters v c) := by
  simp [parameters]

/-! ## Literals -/

theorem spliceSegments_braced (segments : List (Literal.Segment Rendition)) :
    Literal.spliceSegments Text.ofChars (fun slot : Rendition => slot.text .slot)
        (segments.map (Literal.Segment.map Rendition.braced)) =
      withBraces true
        (Literal.spliceSegments Text.ofChars (fun slot : Rendition => slot.text .slot)
          segments) := by
  induction segments with
  | nil => rfl
  | cons segment rest ih =>
    cases segment <;> simp [Literal.spliceSegments, Literal.Segment.map, Literal.afterRun, ih]

theorem interpolated_braced : interpolated (braced c) = withBraces true (interpolated c) := by
  have hparts (rs : List Rendition) :
      (rs.map Rendition.braced).map (stringPart Rendition.value) =
        (rs.map (stringPart Rendition.value)).map (Literal.Part.map Rendition.braced) := by
    rw [List.map_map, List.map_map]
    exact List.map_congr_left fun r _ => stringPart_map rfl
  simp only [interpolated, braced_apply, FieldRendition.sequence_braced, bind_map_left, hparts,
    Literal.segments_map, Writer.liftM_map, Literal.splice, spliceSegments_braced]
  simp

theorem array_braced : array (braced c) = withBraces true (array c) := by
  simp [array]

theorem hash_braced : hash (braced c) = withBraces true (hash c) := by
  simp [hash]

end Rules

/-! ## Bodies -/

namespace Sequence

/-- A statement, written with its blocks in braces. -/
def Statement.braced (x : Statement) : Statement := ⟨x.value, withBraces true x.write⟩

theorem writeOne_braced (endsFile : Bool) (x : Statement) :
    writeOne endsFile x.braced = withBraces true (writeOne endsFile x) := by
  obtain ⟨v, write⟩ := x
  cases v with
  | node kind field => cases kind <;> rfl
  | _ => rfl

theorem writeFrom_braced (file : Bool) (state : SeparatorState) (xs : List Statement) :
    writeFrom file state (xs.map Statement.braced) = withBraces true (writeFrom file state xs) := by
  induction xs generalizing state with
  | nil => rfl
  | cons x xs ih =>
    rw [List.map_cons, writeFrom, writeFrom, writeOne_braced, List.isEmpty_map]
    simp [ih, Statement.braced]

theorem write_braced (file : Bool) (xs : List Statement) :
    write file (xs.map Statement.braced) = withBraces true (write file xs) := by
  rw [write, write, Writer.withBraces_read_bind true fun s => rfl]
  refine bind_congr fun s => ?_
  rw [kept_map, writeFrom_braced]
  rfl

@[simp] theorem clause_braced (body : FieldRendition) :
    clause body.braced = withBraces true (clause body) := rfl

end Sequence

namespace Rules

theorem sequenceOf_braced (file : Bool) (statements : FieldRendition) :
    sequenceOf file statements.braced = withBraces true (sequenceOf file statements) := by
  have hstatements (rs : List Rendition) :
      (rs.map Rendition.braced).map
          (fun r => (⟨r.value, r.write .statement⟩ : Sequence.Statement)) =
        (rs.map fun r => ⟨r.value, r.write .statement⟩).map Sequence.Statement.braced := by
    simp [Sequence.Statement.braced, Function.comp_def]
  simp only [sequenceOf, FieldRendition.sequence_braced, bind_map_left, hstatements,
    Sequence.write_braced, Writer.withBraces_bind, FieldRendition.withBraces_sequence]

/-! ## Calls -/

theorem attachedBlock_braced (r : FieldRendition) :
    attachedBlock r.braced = withBraces true (attachedBlock r) := by
  rw [attachedBlock, attachedBlock, Writer.withBraces_ite]
  rfl

theorem unaryCall_braced (op : Operator) :
    unaryCall (braced c) op = withBraces true (unaryCall c op) := by
  cases op <;> simp [unaryCall]

theorem binaryCall_braced (op : Operator) (argument : Rendition) :
    binaryCall (braced c) op argument.braced = withBraces true (binaryCall c op argument) := rfl

theorem indexAssignment_braced (keys : List Rendition) (value : Rendition) :
    indexAssignment (braced c) (keys.map Rendition.braced) value.braced =
      withBraces true (indexAssignment c keys value) := by
  simp [indexAssignment]

theorem attributeAssignment_braced (value : Rendition) :
    attributeAssignment (braced c) value.braced = withBraces true (attributeAssignment c value) :=
  rfl

theorem indexAccess_braced : indexAccess (braced c) = withBraces true (indexAccess c) := by
  simp [indexAccess]

theorem argumentList_braced : argumentList (braced c) = withBraces true (argumentList c) := by
  have hread : withBraces true (do
      if ← readsAsVariable (← read) (← get) (c .name).value then return Draft.lit "()"
      else return []) = (do
      if ← readsAsVariable (← read) (← get) (c .name).value then return Draft.lit "()"
      else return []) := by
    rw [Writer.withBraces_read_bind true fun s => rfl]
    simp
  simp only [argumentList, braced_apply, Writer.withBraces_ite, hread]
  simp

theorem plainCall_braced : plainCall (braced c) = withBraces true (plainCall c) := by
  simp [plainCall, argumentList_braced, attachedBlock_braced]
  rfl

theorem call_braced : call (braced c) = withBraces true (call c) := by
  rw [call, call, Writer.withBraces_bind]
  refine bind_congr fun shape => ?_
  rw [braced_apply, FieldRendition.elements_braced]
  rcases (c .arguments).elements with _ | ⟨item, items⟩
  · rcases shape with op | op | _ | _ | _ | _
    · exact unaryCall_braced c op
    · exact plainCall_braced c
    · exact plainCall_braced c
    · exact plainCall_braced c
    · exact indexAccess_braced c
    · exact plainCall_braced c
  · rw [List.getLast?_map, ← List.map_dropLast,
      List.getLast?_eq_some_getLast (List.cons_ne_nil _ _)]
    rcases shape with op | op | _ | _ | _ | _
    · exact unaryCall_braced c op
    · exact binaryCall_braced c op item
    · exact indexAssignment_braced c _ _
    · exact attributeAssignment_braced c item
    · exact indexAccess_braced c
    · exact plainCall_braced c

theorem superCall_braced : superCall (braced c) = withBraces true (superCall c) := by
  simp only [superCall, braced_apply, blockArgument?_braced, FieldRendition.toRendition_braced,
    Rendition.value_braced, attachedBlock_braced]
  rcases (c .arguments).value.isNull with _ | _
  · simp
  · rcases blockArgument? (c .block) with _ | block <;> simp

theorem yieldCall_braced : yieldCall (braced c) = withBraces true (yieldCall c) := by
  simp [yieldCall]

theorem outputCall_braced (argument : Rendition) :
    outputCall (braced c) argument.braced = withBraces true (outputCall c argument) := rfl

/-! ## Definitions -/

theorem methodReceiver_braced (receiver : FieldRendition) :
    methodReceiver receiver.braced = withBraces true (methodReceiver receiver) := rfl

theorem methodDef_braced : methodDef (braced c) = withBraces true (methodDef c) := by
  simp [methodDef, methodReceiver_braced, Writer.inNewScope]

theorem classDef_braced : classDef (braced c) = withBraces true (classDef c) := by
  simp [classDef, Writer.inNewScope]

theorem singletonClass_braced : singletonClass (braced c) = withBraces true (singletonClass c) :=
  rfl

theorem moduleDef_braced : moduleDef (braced c) = withBraces true (moduleDef c) := rfl

/-! ## Conditionals, loops, exceptions and jumps -/

theorem elseBranch_braced (v : Value) :
    elseBranch v (braced c) = withBraces true (elseBranch v c) := by
  simp [elseBranch]

theorem conditional_braced (keyword : String) :
    conditional keyword (braced c) = withBraces true (conditional keyword c) := rfl

theorem alternate_braced (v : Value) :
    alternate v (braced c) = withBraces true (alternate v c) := by
  simp [alternate, conditional_braced, elseBranch_braced]

theorem ifThen_braced : ifThen (braced c) = withBraces true (ifThen c) := rfl

theorem unlessThen_braced : unlessThen (braced c) = withBraces true (unlessThen c) := rfl

theorem postfixConditional_braced (keyword : String) :
    postfixConditional keyword (braced c) = withBraces true (postfixConditional keyword c) := rfl

theorem whenClause_braced (v : Value) :
    whenClause v (braced c) = withBraces true (whenClause v c) := by
  simp [whenClause]

theorem caseOf_braced : caseOf (braced c) = withBraces true (caseOf c) := by
  simp [caseOf, Function.comp_def]

theorem loop_braced (keyword : String) :
    loop keyword (braced c) = withBraces true (loop keyword c) := rfl

theorem loopVariable_braced (v : Value) :
    loopVariable v (braced c) = withBraces true (loopVariable v c) := by
  rw [loopVariable, loopVariable]
  split <;> rfl

theorem forLoop_braced : forLoop (braced c) = withBraces true (forLoop c) := rfl

theorem rescueClause_braced (v : Value) :
    rescueClause v (braced c) = withBraces true (rescueClause v c) := by
  simp [rescueClause]

theorem ensureClause_braced (v : Value) :
    ensureClause v (braced c) = withBraces true (ensureClause v c) := by
  simp [ensureClause]

theorem beginBlock_braced : beginBlock (braced c) = withBraces true (beginBlock c) := by
  simp [beginBlock, Function.comp_def]

theorem jump_braced (keyword : String) :
    jump keyword (braced c) = withBraces true (jump keyword c) := by
  simp [jump]

/-! ## Every node in every role -/

theorem expression_braced (v : Value) :
    expression v (braced c) = withBraces true (expression v c) := by
  cases v with
  | node kind field =>
    cases kind <;>
      simp [expression, Value.kind?, methodDef_braced, classDef_braced, singletonClass_braced,
        moduleDef_braced, ifThen_braced, unlessThen_braced, caseOf_braced, loop_braced,
        forLoop_braced, beginBlock_braced, call_braced, logical_braced, negation_braced,
        jump_braced, yieldCall_braced, superCall_braced, interpolated_braced, array_braced,
        hash_braced, range_braced, sequenceOf_braced, localAssignment_braced, assignment_braced,
        constantPath_braced, compoundAssignment_braced, noRule]
  | _ => rfl

theorem plainStatement_braced (v : Value) :
    plainStatement v (braced c) = withBraces true (plainStatement v c) := by
  simp [plainStatement, expression_braced]

theorem conditionalStatement_braced (keyword : String) (v : Value) :
    conditionalStatement keyword v (braced c) =
      withBraces true (conditionalStatement keyword v c) := by
  rw [conditionalStatement, conditionalStatement, Writer.withBraces_read_bind true fun s => rfl]
  refine bind_congr fun s => ?_
  simp [postfixConditional_braced, plainStatement_braced]

theorem callStatement_braced (v : Value) :
    callStatement v (braced c) = withBraces true (callStatement v c) := by
  rw [callStatement, callStatement, Writer.withBraces_read_bind true fun s => rfl]
  refine bind_congr fun s => ?_
  simp only [Writer.withBraces_bind, Writer.withBraces_get, Writer.withBraces_liftM, braced_apply,
    FieldRendition.elements_braced]
  refine bind_congr fun locals => bind_congr fun isOutput => ?_
  rcases (c .arguments).elements with _ | ⟨argument, rest⟩ <;> rcases isOutput with _ | _
  · exact plainStatement_braced c v
  · exact plainStatement_braced c v
  · exact plainStatement_braced c v
  · exact outputCall_braced c argument

theorem statement_braced (v : Value) :
    statement v (braced c) = withBraces true (statement v c) := by
  unfold statement
  split
  · exact conditionalStatement_braced c "if" v
  · exact conditionalStatement_braced c "unless" v
  · exact callStatement_braced c v
  · exact plainStatement_braced c v

theorem body_braced (file : Bool) (v : Value) :
    body file v (braced c) = withBraces true (body file v c) := by
  have hstatement := Sequence.write_braced file [⟨v, statement v c⟩]
  rw [List.map_singleton, Sequence.Statement.braced, ← statement_braced] at hstatement
  simp [body, sequenceOf_braced, hstatement]

/-! ## Blocks -/

/-- How a block is written after its parameters: from the parts of the block and the text of the
parameters. -/
abbrev BlockForm := (Field → FieldRendition) → Text → Writer Draft

/-- The parameters of a block between bars. -/
def bars (names : Text) : Draft :=
  if names.isEmpty then [] else Draft.lit "|" ++ Draft.of names ++ Draft.lit "|"

/-- The form with braces. -/
def braceForm : BlockForm := fun c names => do
  let body ← (c .body).write (.body false)
  return Draft.lit "\x7b" ++ bars names ++ body ++ Draft.lit "\x7d"

/-- The form with `do` and `end`. -/
def doForm : BlockForm := fun c names => do
  let gap := if names.isEmpty then [] else Draft.of [.optionalBlank]
  let body ← Writer.withBraces false (Sequence.clause (c .body))
  return Draft.lit " do" ++ gap ++ bars names ++ body ++ Draft.lit "end"

/-- A block attached to a call, with some form in the place of the one with `do`. -/
def blockWith (form : BlockForm) (c : Field → FieldRendition) : Writer Draft :=
  Writer.inInnerScope do
    let names ← (c .parameters).ifPresent ((c .parameters).text .parameters)
    if (← read).braceBlocks then braceForm c names else form c names

theorem block_eq_blockWith : block = blockWith doForm := rfl

/-- Under braces no other form is used. -/
theorem blockWith_braced (form : BlockForm) :
    blockWith braceForm (braced c) = withBraces true (blockWith form c) := by
  have hform (names : Text) : (do
      if (← read).braceBlocks then braceForm (braced c) names else braceForm (braced c) names) =
        withBraces true (do
          if (← read).braceBlocks then braceForm c names else form c names) := by
    funext s
    show (if s.braceBlocks then braceForm (braced c) names else braceForm (braced c) names) s = _
    rw [ite_self]
    rfl
  simp only [blockWith, hform, Writer.inInnerScope, Writer.withBraces_withLocals]
  simp

/-- A value in any role, with some form in the place of that of blocks with `do`. -/
def writeWith (form : BlockForm) (v : Value) (c : Field → FieldRendition) : Role → Writer Draft
  | .block => blockWith form c
  | role => write v c role

theorem write_eq_writeWith (v : Value) : write v c = writeWith doForm v c := by
  funext role
  cases role <;> rfl

theorem writeWith_braced (form : BlockForm) (v : Value) (role : Role) :
    writeWith braceForm v (braced c) role = withBraces true (writeWith form v c role) := by
  cases role with
  | expression => exact expression_braced c v
  | statement => exact statement_braced c v
  | body file => exact body_braced c file v
  | argument => simp [writeWith, write, expression_braced, argument_braced]
  | hashElement => simp [writeWith, write, hashElement_braced]
  | whenClause => exact whenClause_braced c v
  | rescueClause => exact rescueClause_braced c v
  | elseBranch => exact elseBranch_braced c v
  | alternate => exact alternate_braced c v
  | ensureClause => exact ensureClause_braced c v
  | parameters => simp [writeWith, write, parameters_braced]
  | parameter sign => simp [writeWith, write, parameter_braced]
  | optionalParameter => simp [writeWith, write, optionalParameter_braced]
  | keywordParameter => simp [writeWith, write, keywordParameter_braced]
  | slot => rfl
  | loopVariable => exact loopVariable_braced c v
  | block => exact blockWith_braced c form

end Rules
end TerseRuby
