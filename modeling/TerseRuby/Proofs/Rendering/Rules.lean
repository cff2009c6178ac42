import TerseRuby.Proofs.Rendering.Punctuation

/-!
# Every rule, with the separators of its parts spelled

For each rule of the renderer there is a lemma `…_punctuate`.  On the left of it the parts of the
node spell their separators before the rule sees them, and on the right the whole does afterwards.
There are two forms.

* A rule that writes no separator commutes with spelling:
  `rule (punctuated o c) = Draft.punctuate o <$> rule c`.
* A rule that does is left with its own separators, so these are spelled on both sides:
  `Draft.punctuate o <$> rule (punctuated o c) = Draft.punctuate o <$> rule c`.

The main statement is `Rules.write_punctuate`, the second form for a value in any role.
-/

set_option autoImplicit false

namespace TerseRuby

section Rules

variable (o : Options) (c : Field → FieldRendition)

/-- The parts of a node, each of which spells its separators. -/
def punctuated (f : Field) : FieldRendition := (c f).punctuate o

@[simp] theorem punctuated_apply (f : Field) : punctuated o c f = (c f).punctuate o := rfl

theorem punctuated_punctuated : punctuated o (punctuated o c) = punctuated o c := by
  funext f
  simp

namespace Rules

/-! ## Operands and operators -/

theorem logical_punctuate (op : Operator) (asWord : Bool) :
    logical (punctuated o c) op asWord = Draft.punctuate o <$> logical c op asWord := by
  rcases asWord with _ | _ <;> simp [logical]

theorem negation_punctuate : negation (punctuated o c) = Draft.punctuate o <$> negation c := by
  simp [negation]

theorem range_punctuate : range (punctuated o c) = Draft.punctuate o <$> range c := by
  simp [range]
  rfl

theorem assignment_punctuate :
    assignment (punctuated o c) = Draft.punctuate o <$> assignment c := by
  simp [assignment]

theorem localAssignment_punctuate :
    localAssignment (punctuated o c) = Draft.punctuate o <$> localAssignment c := by
  simp [localAssignment, assignment_punctuate]

theorem compoundAssignment_punctuate :
    compoundAssignment (punctuated o c) = Draft.punctuate o <$> compoundAssignment c := by
  simp [compoundAssignment]

theorem constantPath_punctuate :
    constantPath (punctuated o c) = Draft.punctuate o <$> constantPath c := by
  simp [constantPath]

/-! ## Arguments, elements and parameters -/

@[simp] theorem mapM_text_punctuate (rs : List Rendition) (role : Role) :
    rs.mapM ((fun r : Rendition => r.text role) ∘ Rendition.punctuate o) =
      List.map (Text.punctuate o) <$> rs.mapM fun r => r.text role := by
  induction rs with
  | nil => simp
  | cons r rs ih => simp [ih]

@[simp] theorem mapM_write_punctuate (rs : List Rendition) (role : Role) :
    rs.mapM ((fun r : Rendition => r.write role) ∘ Rendition.punctuate o) =
      List.map (Draft.punctuate o) <$> rs.mapM fun r => r.write role := by
  induction rs with
  | nil => simp
  | cons r rs ih => simp [ih]

@[simp] theorem arguments_punctuate (items : List Rendition) (blockArgument : Option Rendition) :
    arguments (items.map (Rendition.punctuate o)) (blockArgument.map (Rendition.punctuate o)) =
      Text.punctuate o <$> arguments items blockArgument := by
  have hparts : items.map (Rendition.punctuate o) ++
      (blockArgument.map (Rendition.punctuate o)).toList =
        (items ++ blockArgument.toList).map (Rendition.punctuate o) := by
    rcases blockArgument with _ | _ <;> simp
  simp only [arguments, hparts, List.mapM_map, mapM_text_punctuate, bind_map_left, map_bind,
    map_pure, Text.commaSeparated_punctuate]

@[simp] theorem arguments_none_punctuate (items : List Rendition) :
    arguments (items.map (Rendition.punctuate o)) none =
      Text.punctuate o <$> arguments items none :=
  arguments_punctuate o items none

@[simp] theorem blockArgument?_punctuate (block : FieldRendition) :
    blockArgument? (block.punctuate o) = (blockArgument? block).map (Rendition.punctuate o) := by
  rw [blockArgument?, blockArgument?, FieldRendition.toRendition_punctuate,
    Rendition.value_punctuate]
  split <;> rfl

@[simp] theorem hashElements_punctuate (elements : FieldRendition) :
    hashElements (elements.punctuate o) = Text.punctuate o <$> hashElements elements := by
  simp [hashElements]

@[simp] theorem spread_punctuate (stars : String) (value : FieldRendition) :
    spread stars (value.punctuate o) = Text.punctuate o <$> spread stars value := by
  simp [spread]

theorem keyLabel?_punctuate (key : Value) :
    Option.map (Text.punctuate o) <$> keyLabel? key = keyLabel? key := by
  unfold keyLabel?
  split
  · split
    · rename_i name _
      rcases Literal.label? name.toList with _ | label
      · rfl
      · exact congrArg (fun t => Except.ok (some t)) (Text.punctuate_ofChars o label)
    · rfl
  · rfl

theorem pair_punctuate : pair (punctuated o c) = Text.punctuate o <$> pair c := by
  have hlabel := keyLabel?_punctuate o (c .key).value
  rw [pair, pair, map_bind, punctuated_apply, FieldRendition.toRendition_punctuate,
    Rendition.value_punctuate]
  conv => lhs; rw [← hlabel, Writer.liftM_map, bind_map_left]
  refine bind_congr fun label => ?_
  rcases label with _ | label
  · simp
  · simp

theorem hashElement_punctuate (self : Value) :
    hashElement self (punctuated o c) = Text.punctuate o <$> hashElement self c := by
  rw [hashElement, hashElement]
  split
  · exact pair_punctuate o c
  · exact spread_punctuate o _ _
  · rfl

theorem argument_punctuate (self : Value) (asExpression : Writer Draft) :
    argument self (punctuated o c) (Draft.punctuate o <$> asExpression) =
      Text.punctuate o <$> argument self c asExpression := by
  rw [argument, argument]
  split
  · exact spread_punctuate o _ _
  · exact spread_punctuate o _ _
  · exact hashElement_punctuate o c self
  · exact hashElements_punctuate o _
  · simp

theorem parameter_punctuate (self : Value) (sign : String) :
    parameter self (punctuated o c) sign = Text.punctuate o <$> parameter self c sign := by
  rcases hname : (c .name).value.text? with _ | name <;> simp [parameter, hname]

theorem optionalParameter_punctuate (self : Value) :
    optionalParameter self (punctuated o c) = Text.punctuate o <$> optionalParameter self c := by
  simp [optionalParameter]

theorem keywordParameter_punctuate (self : Value) :
    keywordParameter self (punctuated o c) = Text.punctuate o <$> keywordParameter self c := by
  have hlabel (name : String) : Text.punctuate o (Text.lit name ++ Text.lit ":") =
      Text.lit name ++ Text.lit ":" := by simp
  simp [keywordParameter, fun name => Text.joinLabel_punctuate_right o (hlabel name)]

@[simp] theorem parameterGroup_punctuate (group : FieldRendition) (role : Role) :
    parameterGroup (group.punctuate o) role =
      List.map (Text.punctuate o) <$> parameterGroup group role := by
  simp [parameterGroup]

@[simp] theorem singleParameter_punctuate (r : FieldRendition) (sign : String) :
    singleParameter (r.punctuate o) sign =
      List.map (Text.punctuate o) <$> singleParameter r sign := by
  rw [singleParameter, singleParameter, ← FieldRendition.ifPresent_map r rfl]
  simp

theorem parameters_punctuate (self : Value) :
    parameters self (punctuated o c) = Text.punctuate o <$> parameters self c := by
  simp only [parameters, punctuated_apply, parameterGroup_punctuate, singleParameter_punctuate,
    bind_map_left, map_bind, map_pure, ← List.map_append, Text.commaSeparated_punctuate]

/-! ## Literals -/

open Literal (Segment)

theorem stringPart_punctuate (r : Rendition) :
    stringPart Rendition.value (r.punctuate o) =
      (stringPart Rendition.value r).map (Rendition.punctuate o) := by
  rw [stringPart, stringPart, Rendition.value_punctuate]
  split
  · split <;> rfl
  · rfl
  · rfl

theorem spliceSegments_punctuate (segments : List (Segment Rendition)) :
    Literal.spliceSegments Text.ofChars (fun slot : Rendition => slot.text .slot)
        (segments.map (Segment.map (Rendition.punctuate o))) =
      Text.punctuate o <$>
        Literal.spliceSegments Text.ofChars (fun slot : Rendition => slot.text .slot)
          segments := by
  induction segments with
  | nil => rfl
  | cons segment rest ih =>
    rcases segment with text | slot
    · simp [Segment.map, Literal.spliceSegments, ih, Literal.afterRun]
    · simp [Segment.map, Literal.spliceSegments, ih]

theorem interpolated_punctuate :
    interpolated (punctuated o c) = Draft.punctuate o <$> interpolated c := by
  have hparts (rs : List Rendition) :
      (rs.map (Rendition.punctuate o)).map (stringPart Rendition.value) =
        (rs.map (stringPart Rendition.value)).map (Literal.Part.map (Rendition.punctuate o)) := by
    simp [Function.comp_def, stringPart_punctuate]
  simp only [interpolated, punctuated_apply, FieldRendition.sequence_punctuate, bind_map_left,
    map_bind, hparts, Literal.segments_map, Writer.liftM_map, Literal.splice,
    spliceSegments_punctuate, map_pure]
  simp

theorem array_punctuate : array (punctuated o c) = Draft.punctuate o <$> array c := by
  simp [array]

theorem hash_punctuate : hash (punctuated o c) = Draft.punctuate o <$> hash c := by
  simp [hash]

/-! ## Calls -/

theorem unaryCall_punctuate (op : Operator) :
    unaryCall (punctuated o c) op = Draft.punctuate o <$> unaryCall c op := by
  simp only [unaryCall, punctuated_apply, FieldRendition.toRendition_punctuate,
    Rendition.operand_punctuate, bind_map_left, map_bind]
  refine bind_congr fun operand => ?_
  split
  · simp [Text.startsWith_punctuate o (p := fun ch => ch == '~' || ch == '=') (by decide)]
  · simp
  · simp [Text.startsWith_punctuate o (p := CharClass.isDigit) (by decide)]

theorem binaryCall_punctuate (op : Operator) (argument : Rendition) :
    binaryCall (punctuated o c) op (argument.punctuate o) =
      Draft.punctuate o <$> binaryCall c op argument := by
  simp [binaryCall]

@[simp] theorem dot_punctuated : dot (punctuated o c) = dot c := rfl

@[simp] theorem punctuate_dot : Draft.punctuate o (dot c) = dot c := by
  simp [dot]

@[simp] theorem punctuate_brackets (keys : Text) :
    Draft.punctuate o (brackets keys) = brackets (keys.punctuate o) := by
  simp [brackets]

theorem indexAssignment_punctuate (keys : List Rendition) (value : Rendition) :
    indexAssignment (punctuated o c) (keys.map (Rendition.punctuate o)) (value.punctuate o) =
      Draft.punctuate o <$> indexAssignment c keys value := by
  simp [indexAssignment]

theorem attributeAssignment_punctuate (value : Rendition) :
    attributeAssignment (punctuated o c) (value.punctuate o) =
      Draft.punctuate o <$> attributeAssignment c value := by
  simp [attributeAssignment]

theorem indexAccess_punctuate :
    indexAccess (punctuated o c) = Draft.punctuate o <$> indexAccess c := by
  simp [indexAccess]

theorem argumentList_punctuate :
    argumentList (punctuated o c) = Draft.punctuate o <$> argumentList c := by
  simp [argumentList]

@[simp] theorem attachedBlock_punctuate (r : FieldRendition) :
    attachedBlock (r.punctuate o) = Draft.punctuate o <$> attachedBlock r := by
  rw [attachedBlock, attachedBlock, FieldRendition.toRendition_punctuate,
    Rendition.value_punctuate]
  split <;> rfl

theorem plainCall_punctuate : plainCall (punctuated o c) = Draft.punctuate o <$> plainCall c := by
  have hreceiver :
      (do return Draft.of (← ((c .receiver).punctuate o).memberOperand) ++ dot c : Writer Draft) =
        Draft.punctuate o <$> do return Draft.of (← (c .receiver).memberOperand) ++ dot c := by
    simp
  simp only [plainCall, punctuated_apply, dot_punctuated, hreceiver,
    FieldRendition.ifPresent_draft_map, FieldRendition.ifPresent_punctuate,
    argumentList_punctuate, attachedBlock_punctuate]
  simp

theorem call_punctuate : call (punctuated o c) = Draft.punctuate o <$> call c := by
  simp only [call, punctuated_apply, FieldRendition.elements_punctuate, map_bind]
  refine bind_congr fun shape => ?_
  rcases (c .arguments).elements with _ | ⟨item, items⟩
  · rcases shape with op | op | _ | _ | _ | _
    · exact unaryCall_punctuate o c op
    · exact plainCall_punctuate o c
    · exact plainCall_punctuate o c
    · exact plainCall_punctuate o c
    · exact indexAccess_punctuate o c
    · exact plainCall_punctuate o c
  · rw [List.getLast?_map, ← List.map_dropLast,
      List.getLast?_eq_some_getLast (List.cons_ne_nil _ _)]
    rcases shape with op | op | _ | _ | _ | _
    · exact unaryCall_punctuate o c op
    · exact binaryCall_punctuate o c op item
    · exact indexAssignment_punctuate o c _ _
    · exact attributeAssignment_punctuate o c item
    · exact indexAccess_punctuate o c
    · exact plainCall_punctuate o c

theorem superCall_punctuate : superCall (punctuated o c) = Draft.punctuate o <$> superCall c := by
  have hblock := blockArgument?_punctuate o (c .block)
  simp only [superCall, punctuated_apply, hblock, FieldRendition.toRendition_punctuate,
    Rendition.value_punctuate]
  rcases (c .arguments).value.isNull with _ | _
  · simp
  · rcases blockArgument? (c .block) with _ | block <;> simp

theorem yieldCall_punctuate : yieldCall (punctuated o c) = Draft.punctuate o <$> yieldCall c := by
  simp [yieldCall]

theorem outputCall_punctuate (argument : Rendition) :
    outputCall (punctuated o c) (argument.punctuate o) =
      Draft.punctuate o <$> outputCall c argument := by
  simp [outputCall]

theorem postfixConditional_punctuate (keyword : String) :
    postfixConditional keyword (punctuated o c) =
      Draft.punctuate o <$> postfixConditional keyword c := by
  simp [postfixConditional]

theorem loopVariable_punctuate (self : Value) :
    loopVariable self (punctuated o c) = Draft.punctuate o <$> loopVariable self c := by
  rw [loopVariable, loopVariable]
  split <;> simp

theorem jump_punctuate (keyword : String) :
    jump keyword (punctuated o c) = Draft.punctuate o <$> jump keyword c := by
  have hvalues :
      (((c .arguments).punctuate o).sequence >>= fun items => arguments items none) =
        Text.punctuate o <$> ((c .arguments).sequence >>= fun items => arguments items none) := by
    simp
  simp only [jump, punctuated_apply, hvalues, Writer.withBraces_map]
  simp

/-! ## Constructs with bodies -/

open Sequence (clause)

@[simp] theorem methodReceiver_punctuate (r : FieldRendition) :
    methodReceiver (r.punctuate o) = Draft.punctuate o <$> methodReceiver r := by
  simp [methodReceiver]

theorem clause_punctuate (r : FieldRendition) :
    Draft.punctuate o <$> clause (r.punctuate o) = Draft.punctuate o <$> clause r := by
  simp [clause]

theorem block_punctuate :
    Draft.punctuate o <$> block (punctuated o c) = Draft.punctuate o <$> block c := by
  refine Writer.withLocals_congr id ?_
  simp only [punctuated_apply, FieldRendition.toRendition_punctuate, Rendition.text_punctuate,
    FieldRendition.ifPresent_punctuate, FieldRendition.ifPresent_text_map, bind_map_left, map_bind,
    Writer.map_ite]
  refine bind_congr fun names => bind_congr fun s => ?_
  split
  · simp
  · refine Writer.bind_eq_bind (Writer.withBraces_congr false (clause_punctuate o _))
      fun body' body hbody => ?_
    simp [hbody]

theorem elseBranch_punctuate (self : Value) :
    Draft.punctuate o <$> elseBranch self (punctuated o c) =
      Draft.punctuate o <$> elseBranch self c := by
  simp [elseBranch, clause]

theorem conditional_punctuate (keyword : String) :
    Draft.punctuate o <$> conditional keyword (punctuated o c) =
      Draft.punctuate o <$> conditional keyword c := by
  simp [conditional, clause]

theorem alternate_punctuate (self : Value) :
    Draft.punctuate o <$> alternate self (punctuated o c) =
      Draft.punctuate o <$> alternate self c := by
  rw [alternate, alternate]
  split
  · exact conditional_punctuate o c _
  · exact elseBranch_punctuate o c self

theorem ifThen_punctuate :
    Draft.punctuate o <$> ifThen (punctuated o c) = Draft.punctuate o <$> ifThen c := by
  simp only [ifThen, map_bind]
  refine Writer.bind_eq_bind (conditional_punctuate o c "if") fun text' text htext => ?_
  simp [htext]

theorem unlessThen_punctuate :
    Draft.punctuate o <$> unlessThen (punctuated o c) =
      Draft.punctuate o <$> unlessThen c := by
  simp [unlessThen, clause]

theorem whenClause_punctuate (self : Value) :
    Draft.punctuate o <$> whenClause self (punctuated o c) =
      Draft.punctuate o <$> whenClause self c := by
  simp [whenClause, clause]

theorem caseOf_punctuate :
    Draft.punctuate o <$> caseOf (punctuated o c) =
      Draft.punctuate o <$> caseOf c := by
  have hsubject (w : Writer Text) : (c .predicate).ifPresent
      (Draft.afterKeyword <$> Text.punctuate o <$> w) =
        Draft.punctuate o <$> (c .predicate).ifPresent (Draft.afterKeyword <$> w) := by
    rw [← FieldRendition.ifPresent_draft_map]
    simp only [Functor.map_map, Draft.afterKeyword_punctuate]
  simp only [caseOf, punctuated_apply, FieldRendition.toRendition_punctuate,
    Rendition.text_punctuate, FieldRendition.ifPresent_punctuate, hsubject]
  simp

theorem loop_punctuate (keyword : String) :
    Draft.punctuate o <$> loop keyword (punctuated o c) =
      Draft.punctuate o <$> loop keyword c := by
  simp [loop, clause]

theorem forLoop_punctuate :
    Draft.punctuate o <$> forLoop (punctuated o c) =
      Draft.punctuate o <$> forLoop c := by
  simp [forLoop, clause]

theorem rescueClause_punctuate (self : Value) :
    Draft.punctuate o <$> rescueClause self (punctuated o c) =
      Draft.punctuate o <$> rescueClause self c := by
  simp [rescueClause, clause]

theorem ensureClause_punctuate (self : Value) :
    Draft.punctuate o <$> ensureClause self (punctuated o c) =
      Draft.punctuate o <$> ensureClause self c := by
  simp [ensureClause, clause]

theorem beginBlock_punctuate :
    Draft.punctuate o <$> beginBlock (punctuated o c) =
      Draft.punctuate o <$> beginBlock c := by
  simp [beginBlock, clause]

theorem methodDef_punctuate :
    Draft.punctuate o <$> methodDef (punctuated o c) = Draft.punctuate o <$> methodDef c := by
  simp only [methodDef, punctuated_apply, methodReceiver_punctuate,
    FieldRendition.toRendition_punctuate, Rendition.text_punctuate,
    FieldRendition.ifPresent_punctuate, FieldRendition.ifPresent_text_map,
    FieldRendition.ifPresent_draft_map, bind_map_left, map_bind]
  refine bind_congr fun receiver => Writer.bind_eq_bind (o := o) (Writer.withLocals_congr _ ?_)
    fun rest' rest hrest => ?_
  · simp [clause]
  · simp [hrest]

theorem classDef_punctuate :
    Draft.punctuate o <$> classDef (punctuated o c) = Draft.punctuate o <$> classDef c := by
  have hsuperclass (w : Writer Text) :
      (c .superclass).ifPresent (do return Draft.lit "<" ++ Draft.of (← Text.punctuate o <$> w)) =
        Draft.punctuate o <$>
          (c .superclass).ifPresent (do return Draft.lit "<" ++ Draft.of (← w)) := by
    rw [← FieldRendition.ifPresent_draft_map]
    simp
  simp only [classDef, punctuated_apply, FieldRendition.toRendition_punctuate,
    Rendition.text_punctuate, Rendition.memberOperand_punctuate,
    FieldRendition.ifPresent_punctuate]
  rw [hsuperclass]
  simp only [bind_map_left, map_bind]
  refine bind_congr fun path => bind_congr fun superclass => Writer.bind_eq_bind
    (Writer.withLocals_congr _ (clause_punctuate o _)) fun body' body hbody => ?_
  simp [hbody]

theorem singletonClass_punctuate :
    Draft.punctuate o <$> singletonClass (punctuated o c) =
      Draft.punctuate o <$> singletonClass c := by
  simp only [singletonClass, punctuated_apply, FieldRendition.toRendition_punctuate,
    Rendition.memberOperand_punctuate, bind_map_left, map_bind]
  refine bind_congr fun object => Writer.bind_eq_bind
    (Writer.withLocals_congr _ (clause_punctuate o _)) fun body' body hbody => ?_
  simp [hbody]

theorem moduleDef_punctuate :
    Draft.punctuate o <$> moduleDef (punctuated o c) = Draft.punctuate o <$> moduleDef c := by
  simp only [moduleDef, punctuated_apply, FieldRendition.toRendition_punctuate,
    Rendition.text_punctuate, bind_map_left, map_bind]
  refine bind_congr fun path => Writer.bind_eq_bind
    (Writer.withLocals_congr _ (clause_punctuate o _)) fun body' body hbody => ?_
  simp [hbody]

end Rules

/-! ## Sequences of statements -/

namespace Sequence

/-- A statement that spells its separators. -/
def Statement.punctuate (statement : Statement) : Statement :=
  ⟨statement.value, Draft.punctuate o <$> statement.write⟩

theorem trim_map {α β : Type} (p : β → Bool) (f : α → β) (xs : List α) :
    trim p (xs.map f) = (trim (p ∘ f) xs).map f := by
  simp [trim, List.dropWhile_map, ← List.map_reverse]

theorem kept_punctuate (s : Setting) (file : Bool) (statements : List Statement) :
    kept s file Statement.value (statements.map (Statement.punctuate o)) =
      (kept s file Statement.value statements).map (Statement.punctuate o) := by
  rw [kept, kept, List.filter_map, trim_map]
  split <;> rfl

theorem writeOne_punctuate (endsFile : Bool) (statement : Statement) :
    writeOne endsFile (statement.punctuate o) =
      Draft.punctuate o <$> writeOne endsFile statement := by
  simp only [writeOne, Statement.punctuate]
  split
  · simp
  · simp
  · rfl

theorem writeFrom_punctuate (file : Bool) (state : SeparatorState) (statements : List Statement) :
    Draft.punctuate o <$> writeFrom file state (statements.map (Statement.punctuate o)) =
      Draft.punctuate o <$> writeFrom file state statements := by
  induction statements generalizing state with
  | nil => rfl
  | cons statement rest ih =>
    simp only [List.map_cons, writeFrom, writeOne_punctuate, List.isEmpty_map, bind_map_left,
      map_bind]
    refine bind_congr fun head => Writer.bind_eq_bind (ih _) fun tail' tail htail => ?_
    simp [htail]

theorem write_punctuate (file : Bool) (statements : List Statement) :
    Draft.punctuate o <$> write file (statements.map (Statement.punctuate o)) =
      Draft.punctuate o <$> write file statements := by
  simp only [write, map_bind, kept_punctuate, writeFrom_punctuate]

end Sequence

namespace Rules

open Sequence (Statement)

theorem sequenceOf_punctuate (file : Bool) (r : FieldRendition) :
    Draft.punctuate o <$> sequenceOf file (r.punctuate o) =
      Draft.punctuate o <$> sequenceOf file r := by
  have hstatements (rs : List Rendition) :
      (rs.map (Rendition.punctuate o)).map (fun r => (⟨r.value, r.write .statement⟩ : Statement)) =
        (rs.map fun r => ⟨r.value, r.write .statement⟩).map (Statement.punctuate o) := by
    simp [Statement.punctuate, Function.comp_def]
  simp only [sequenceOf, FieldRendition.sequence_punctuate, bind_map_left, map_bind, hstatements,
    Sequence.write_punctuate]

/-! ## Every node in every role -/

theorem expression_punctuate (self : Value) :
    Draft.punctuate o <$> expression self (punctuated o c) =
      Draft.punctuate o <$> expression self c := by
  cases self with
  | node kind field =>
    cases kind <;>
      simp [expression, Value.kind?, methodDef_punctuate, classDef_punctuate,
        singletonClass_punctuate, moduleDef_punctuate, ifThen_punctuate, unlessThen_punctuate,
        caseOf_punctuate, loop_punctuate, forLoop_punctuate, beginBlock_punctuate, call_punctuate,
        logical_punctuate, negation_punctuate, jump_punctuate, yieldCall_punctuate,
        superCall_punctuate, interpolated_punctuate, array_punctuate, hash_punctuate,
        range_punctuate, sequenceOf_punctuate, localAssignment_punctuate, assignment_punctuate,
        constantPath_punctuate, compoundAssignment_punctuate, noRule]
  | _ => rfl

theorem plainStatement_punctuate (self : Value) :
    Draft.punctuate o <$> plainStatement self (punctuated o c) =
      Draft.punctuate o <$> plainStatement self c := by
  have hexpression := expression_punctuate o c self
  have htext := congrArg (fun w => (Draft.parenthesized ∘ Draft.of) <$> w)
    (Writer.built_congr hexpression)
  simp only [plainStatement, map_bind, Writer.map_ite, hexpression]
  refine bind_congr fun needed => ?_
  rcases needed with _ | _
  · simp
  · simpa using htext

theorem conditionalStatement_punctuate (keyword : String) (self : Value) :
    Draft.punctuate o <$> conditionalStatement keyword self (punctuated o c) =
      Draft.punctuate o <$> conditionalStatement keyword self c := by
  simp [conditionalStatement, plainStatement_punctuate, postfixConditional_punctuate]

theorem callStatement_punctuate (self : Value) :
    Draft.punctuate o <$> callStatement self (punctuated o c) =
      Draft.punctuate o <$> callStatement self c := by
  simp only [callStatement, map_bind]
  refine bind_congr fun s => bind_congr fun locals => bind_congr fun isOutput => ?_
  rcases isOutput with _ | _
  · exact plainStatement_punctuate o c self
  · simp only [punctuated_apply, FieldRendition.elements_punctuate]
    rcases (c .arguments).elements with _ | ⟨argument, _⟩
    · exact plainStatement_punctuate o c self
    · simp [outputCall_punctuate]

theorem statement_punctuate (self : Value) :
    Draft.punctuate o <$> statement self (punctuated o c) =
      Draft.punctuate o <$> statement self c := by
  rw [statement, statement]
  split
  · exact conditionalStatement_punctuate o c _ self
  · exact conditionalStatement_punctuate o c _ self
  · exact callStatement_punctuate o c self
  · exact plainStatement_punctuate o c self

theorem body_punctuate (file : Bool) (self : Value) :
    Draft.punctuate o <$> body file self (punctuated o c) =
      Draft.punctuate o <$> body file self c := by
  rw [body, body]
  split
  · rfl
  · split
    · exact sequenceOf_punctuate o file _
    · have hwrite (w : Writer Draft) := Sequence.write_punctuate o file [⟨self, w⟩]
      simp only [List.map_cons, List.map_nil, Statement.punctuate] at hwrite
      rw [← hwrite, statement_punctuate, hwrite]

theorem argument_expression_punctuate (self : Value) :
    Text.punctuate o <$> argument self (punctuated o c) (expression self (punctuated o c)) =
      Text.punctuate o <$> argument self c (expression self c) := by
  rw [← argument_punctuate, ← argument_punctuate, punctuated_punctuated, expression_punctuate]

theorem write_punctuate (self : Value) (role : Role) :
    Draft.punctuate o <$> write self (punctuated o c) role =
      Draft.punctuate o <$> write self c role := by
  cases role with
  | expression => exact expression_punctuate o c self
  | statement => exact statement_punctuate o c self
  | body file => exact body_punctuate o c file self
  | argument =>
    have hargument := congrArg (Functor.map Draft.of) (argument_expression_punctuate o c self)
    simpa [write] using hargument
  | hashElement => simp [write, hashElement_punctuate]
  | whenClause => exact whenClause_punctuate o c self
  | rescueClause => exact rescueClause_punctuate o c self
  | elseBranch => exact elseBranch_punctuate o c self
  | alternate => exact alternate_punctuate o c self
  | ensureClause => exact ensureClause_punctuate o c self
  | parameters => simp [write, parameters_punctuate]
  | parameter sign => simp [write, parameter_punctuate]
  | optionalParameter => simp [write, optionalParameter_punctuate]
  | keywordParameter => simp [write, keywordParameter_punctuate]
  | slot => simp [write]
  | loopVariable => simp [write, loopVariable_punctuate]
  | block => exact block_punctuate o c

end Rules
end Rules
end TerseRuby
