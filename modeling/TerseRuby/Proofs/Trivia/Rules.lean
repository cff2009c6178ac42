import TerseRuby.Proofs.Trivia.Parts

/-!
# Every rule after erasure

The lemmas `…_strips` go on with bodies, calls, definitions and control structures.  The main
statement is `Value.rendition_strips`: a tree is written after erasure, under any setting, as it was
written before where comments and blank lines are dropped.
-/

set_option autoImplicit false

namespace TerseRuby

variable {c c' : Field → FieldRendition}

/-! ## Bodies -/

namespace Sequence

/-- The second statement is the first after erasure. -/
structure Statement.Strips (x y : Statement) : Prop where
  /-- It is no comment or blank line. -/
  proper : IsProper x.value
  /-- The statement after erasure. -/
  value : y.value = x.value.erase
  /-- How it is written. -/
  write : y.write = x.write.stripped

theorem Statement.Strips.isProper {x y : Statement} (h : x.Strips y) : IsProper y.value := by
  rw [IsProper, h.value, Value.inGroup_erase]
  exact h.proper

theorem isProper_of_strips {xs ys : List Statement} (h : List.Forall₂ Statement.Strips xs ys) :
    ∀ y ∈ ys, IsProper y.value := by
  induction h with
  | nil => exact List.forall_mem_nil _
  | cons hxy _ ih => exact List.forall_mem_cons.mpr ⟨hxy.isProper, ih⟩

theorem writeFrom_strips (file : Bool) {xs ys : List Statement}
    (h : List.Forall₂ Statement.Strips xs ys) (state : SeparatorState) :
    writeFrom file state ys = (writeFrom file state xs).stripped := by
  induction h generalizing state with
  | nil => rfl
  | cons hxy hrest ih =>
    simp [writeFrom, writeOne_eq hxy.proper, writeOne_eq hxy.isProper, hxy.value, hxy.write, ih]

theorem write_strips (file : Bool) {xs ys : List Statement}
    (h : List.Forall₂ Statement.Strips (proper Statement.value xs) ys) :
    write file ys = (write file xs).stripped := by
  simp only [write, Writer.stripped_bind, Writer.stripped_read, bind_map_left, kept_stripped,
    kept_eq _ file (isProper_of_strips h), writeFrom_strips file h]

theorem clause_strips {r r' : FieldRendition} (h : r.StripsBody r') :
    clause r' = (clause r).stripped := by
  simp [clause, h.write, h.value, finalState_erase]

end Sequence

namespace Rules

theorem sequenceOf_strips (file : Bool) {r r' : FieldRendition} (h : r.StripsStatements r') :
    sequenceOf file r' = (sequenceOf file r).stripped := by
  have hstatements : List.Forall₂ Sequence.Statement.Strips
      (Sequence.proper Sequence.Statement.value
        (r.elements.map fun e => ⟨e.value, e.write .statement⟩))
      (r'.elements.map fun e => ⟨e.value, e.write .statement⟩) := by
    obtain ⟨zs, hxs, hys⟩ := exists_pairs h.elements
    have hproper := Sequence.isProper_of_mem_proper Rendition.value r.elements
    rw [hxs] at hproper
    rw [Sequence.proper_map]
    change List.Forall₂ _ ((Sequence.proper Rendition.value r.elements).map _) _
    rw [hxs, hys, List.map_map, List.map_map, List.forall₂_map_left_iff,
      List.forall₂_map_right_iff, List.forall₂_same]
    intro z hz
    exact ⟨hproper z.before (List.mem_map_of_mem hz), z.related.value,
      z.related.write .statement rfl⟩
  have hcollection : r'.value.isCollection = r.value.isCollection := by
    rw [h.value]
    cases r.value <;> rfl
  have htype : r'.value.typeName = r.value.typeName := by
    rw [h.value]
    cases r.value <;> rfl
  rw [sequenceOf, sequenceOf, FieldRendition.sequence, FieldRendition.sequence, hcollection, htype]
  split
  · exact Sequence.write_strips file hstatements
  · rfl

/-! ## Blocks and calls -/

theorem block_strips (hparameters : (c .parameters).Strips (c' .parameters))
    (hbody : (c .body).StripsBody (c' .body)) : block c' = (block c).stripped := by
  have hnames := hparameters.ifPresent (hparameters.whole.text .parameters rfl)
  have hbraces (s : Setting) : s.stripped.braceBlocks = s.braceBlocks := rfl
  simp [block, Writer.inInnerScope, hnames, hbraces, hbody.write, Sequence.clause_strips hbody]

theorem attachedBlock_strips {r r' : FieldRendition} (h : r.Strips r') :
    attachedBlock r' = (attachedBlock r).stripped := by
  rw [attachedBlock, attachedBlock, h.whole.isKind]
  split
  · exact h.whole.write .block ‹_›
  · rfl

theorem unaryCall_strips (h : (c .receiver).Strips (c' .receiver)) (op : Operator) :
    unaryCall c' op = (unaryCall c op).stripped := by
  have hbinds : (c' .receiver).value.bindsToSign = (c .receiver).value.bindsToSign := by
    rw [h.whole.value, Value.bindsToSign_erase]
  simp only [unaryCall, h.whole.operand, hbinds, Writer.stripped_bind]
  refine bind_congr fun operand => ?_
  split <;> simp

theorem binaryCall_strips (h : (c .receiver).Strips (c' .receiver)) (op : Operator)
    {argument argument' : Rendition} (hargument : argument.Strips argument') :
    binaryCall c' op argument' = (binaryCall c op argument).stripped := by
  simp [binaryCall, h.whole.operand, hargument.operand, h.whole.isKind]

theorem indexAssignment_strips (h : (c .receiver).Strips (c' .receiver))
    {keys keys' : List Rendition} (hkeys : List.Forall₂ Rendition.Strips keys keys')
    {value value' : Rendition} (hvalue : value.Strips value') :
    indexAssignment c' keys' value' = (indexAssignment c keys value).stripped := by
  simp [indexAssignment, h.whole.memberOperand, arguments_none_strips hkeys, hvalue.assignedValue]

theorem attributeAssignment_strips (h : (c .receiver).Strips (c' .receiver))
    (hname : (c' .name).value = (c .name).value)
    (hdot : (c' .safeNavigation).value = (c .safeNavigation).value) {value value' : Rendition}
    (hvalue : value.Strips value') :
    attributeAssignment c' value' = (attributeAssignment c value).stripped := by
  simp [attributeAssignment, h.whole.memberOperand, dot_eq hdot, hname, hvalue.assignedValue]

/-- The arguments and the block argument of a call. -/
theorem argumentsAndBlock_strips (harguments : (c .arguments).Strips (c' .arguments))
    (hblock : (c .block).Strips (c' .block)) {α : Type} {f g : Text → Writer α}
    (hfg : ∀ list, g list = (f list).stripped) :
    (do
      let items ← (c' .arguments).sequence
      let list ← arguments items (blockArgument? (c' .block))
      g list) = Writer.stripped (do
        let items ← (c .arguments).sequence
        let list ← arguments items (blockArgument? (c .block))
        f list) := by
  refine harguments.sequence_bind ?_
  rw [arguments_strips harguments.elements (blockArgument?_strips hblock), Writer.stripped_bind]
  exact bind_congr hfg

theorem indexAccess_strips (h : (c .receiver).Strips (c' .receiver))
    (harguments : (c .arguments).Strips (c' .arguments))
    (hblock : (c .block).Strips (c' .block)) : indexAccess c' = (indexAccess c).stripped := by
  rw [indexAccess, indexAccess, h.whole.memberOperand, Writer.stripped_bind]
  exact bind_congr fun _ => argumentsAndBlock_strips harguments hblock fun _ => rfl

theorem argumentList_strips (h : (c .receiver).Strips (c' .receiver))
    (harguments : (c .arguments).Strips (c' .arguments))
    (hblock : (c .block).Strips (c' .block)) (hname : (c' .name).value = (c .name).value) :
    argumentList c' = (argumentList c).stripped := by
  have hsome : (blockArgument? (c' .block)).isSome = (blockArgument? (c .block)).isSome := by
    rw [blockArgument?, blockArgument?, hblock.whole.isKind]
    split <;> rfl
  have hvariable (s : Setting) (locals : Locals) (name : Value) :
      readsAsVariable s.stripped locals name = readsAsVariable s locals name := rfl
  rw [argumentList, argumentList, harguments.whole.isTrue, hsome, h.whole.isNull, hname]
  split
  · exact argumentsAndBlock_strips harguments hblock fun _ => rfl
  · simp [hvariable]

theorem plainCall_strips (h : (c .receiver).Strips (c' .receiver))
    (harguments : (c .arguments).Strips (c' .arguments))
    (hblock : (c .block).Strips (c' .block)) (hname : (c' .name).value = (c .name).value)
    (hdot : (c' .safeNavigation).value = (c .safeNavigation).value) :
    plainCall c' = (plainCall c).stripped := by
  have hreceiver : (c' .receiver).ifPresent (do
      return Draft.of (← (c' .receiver).memberOperand) ++ dot c') =
        ((c .receiver).ifPresent (do
          return Draft.of (← (c .receiver).memberOperand) ++ dot c)).stripped :=
    h.ifPresent (by simp [h.whole.memberOperand, dot_eq hdot])
  simp only [plainCall, hreceiver, argumentList_strips h harguments hblock hname, hname,
    attachedBlock_strips hblock]
  rfl

theorem call_strips (h : (c .receiver).Strips (c' .receiver))
    (harguments : (c .arguments).Strips (c' .arguments))
    (hblock : (c .block).Strips (c' .block)) (hname : (c' .name).value = (c .name).value)
    (hdot : (c' .safeNavigation).value = (c .safeNavigation).value)
    (hshape : CallShape.of (fun f => (c' f).value) = CallShape.of (fun f => (c f).value)) :
    call c' = (call c).stripped := by
  have hplain := plainCall_strips h harguments hblock hname hdot
  have hindex := indexAccess_strips h harguments hblock
  obtain ⟨zs, hitems, hitems'⟩ := exists_pairs harguments.elements
  simp only [call, hshape, Writer.stripped_bind, Writer.stripped_liftM, hitems, hitems']
  refine bind_congr fun shape => ?_
  rcases zs with _ | ⟨z, zs⟩
  · rcases shape with op | op | _ | _ | _ | _
    · exact unaryCall_strips h op
    · exact hplain
    · exact hplain
    · exact hplain
    · exact hindex
    · exact hplain
  · rw [List.getLast?_map, List.getLast?_map, ← List.map_dropLast, ← List.map_dropLast,
      List.getLast?_eq_some_getLast (List.cons_ne_nil _ _)]
    rcases shape with op | op | _ | _ | _ | _
    · exact unaryCall_strips h op
    · exact binaryCall_strips h op z.related
    · exact indexAssignment_strips h (forall₂_pairs _) (RelatedPair.related _)
    · exact attributeAssignment_strips h hname hdot z.related
    · exact hindex
    · exact hplain

theorem superCall_strips (harguments : (c .arguments).Strips (c' .arguments))
    (hblock : (c .block).Strips (c' .block)) : superCall c' = (superCall c).stripped := by
  have hattached := attachedBlock_strips hblock
  have hargument := blockArgument?_strips hblock
  simp only [superCall, harguments.whole.isNull]
  rcases (c .arguments).value.isNull with _ | _
  · exact argumentsAndBlock_strips harguments hblock fun list => by simp [hattached]
  · rcases hbefore : blockArgument? (c .block) with _ | b <;>
      rcases hafter : blockArgument? (c' .block) with _ | b' <;>
      rw [hbefore, hafter] at hargument
    · simp [hattached]
    · cases hargument
    · cases hargument
    · obtain _ | ⟨hb, _⟩ := hargument
      simp [hattached, hb.argument]

theorem yieldCall_strips (h : (c .arguments).Strips (c' .arguments)) :
    yieldCall c' = (yieldCall c).stripped := by
  rw [yieldCall, yieldCall, h.whole.isTrue]
  split
  · exact h.sequence_bind (by simp [arguments_none_strips h.elements])
  · rfl

theorem outputCall_strips (hname : (c' .name).value = (c .name).value)
    {argument argument' : Rendition} (h : argument.Strips argument') :
    outputCall c' argument' = (outputCall c argument).stripped := by
  simp [outputCall, h.expression, hname]

/-! ## Definitions -/

theorem methodReceiver_strips {r r' : FieldRendition} (h : r.Strips r') :
    methodReceiver r' = (methodReceiver r).stripped := by
  have hgroup : r'.value.inGroup Kind.isBareWord = r.value.inGroup Kind.isBareWord := by
    rw [h.whole.value, Value.inGroup_erase]
  simp [methodReceiver, h.whole.expression, h.whole.isKind, hgroup]

theorem methodDef_strips (hname : (c' .name).value = (c .name).value)
    (hreceiver : (c .receiver).Strips (c' .receiver))
    (hparameters : (c .parameters).Strips (c' .parameters))
    (hbody : (c .body).StripsBody (c' .body)) : methodDef c' = (methodDef c).stripped := by
  have hnames := hparameters.ifPresent (hparameters.whole.text .parameters rfl)
  simp [methodDef, Writer.inNewScope, hname, hreceiver.ifPresent (methodReceiver_strips hreceiver),
    hnames, Sequence.clause_strips hbody]

theorem classDef_strips (hpath : (c .constantPath).Strips (c' .constantPath))
    (hsuperclass : (c .superclass).Strips (c' .superclass))
    (hbody : (c .body).StripsBody (c' .body)) : classDef c' = (classDef c).stripped := by
  have hextends : (c' .superclass).ifPresent (do
      return Draft.lit "<" ++ Draft.of (← (c' .superclass).memberOperand)) =
        ((c .superclass).ifPresent (do
          return Draft.lit "<" ++ Draft.of (← (c .superclass).memberOperand))).stripped :=
    hsuperclass.ifPresent (by simp [hsuperclass.whole.memberOperand])
  simp only [classDef, hpath.whole.expression, hextends, Sequence.clause_strips hbody]
  rfl

theorem singletonClass_strips (hobject : (c .expression).Strips (c' .expression))
    (hbody : (c .body).StripsBody (c' .body)) :
    singletonClass c' = (singletonClass c).stripped := by
  simp only [singletonClass, hobject.whole.memberOperand, Sequence.clause_strips hbody]
  rfl

theorem moduleDef_strips (hpath : (c .constantPath).Strips (c' .constantPath))
    (hbody : (c .body).StripsBody (c' .body)) : moduleDef c' = (moduleDef c).stripped := by
  simp only [moduleDef, hpath.whole.expression, Sequence.clause_strips hbody]
  rfl

/-! ## Conditionals, loops, exceptions and jumps -/

theorem elseBranch_strips (self : Value)
    (h : self.isKind .elseBranch = true → (c .statements).StripsBody (c' .statements)) :
    elseBranch self.erase c' = (elseBranch self c).stripped := by
  rw [elseBranch, elseBranch, Value.isNull_erase, Value.isKind_erase, Value.typeName_erase]
  split
  · rfl
  · split
    · simp [Sequence.clause_strips (h ‹_›)]
    · rfl

theorem conditional_strips (keyword : String) (hpredicate : (c .predicate).Strips (c' .predicate))
    (hstatements : (c .statements).StripsBody (c' .statements))
    (halternate : (c .alternate).Strips (c' .alternate)) :
    conditional keyword c' = (conditional keyword c).stripped := by
  simp [conditional, hpredicate.whole.expression, Sequence.clause_strips hstatements,
    halternate.whole.write .alternate rfl]

theorem ifThen_strips (hpredicate : (c .predicate).Strips (c' .predicate))
    (hstatements : (c .statements).StripsBody (c' .statements))
    (halternate : (c .alternate).Strips (c' .alternate)) :
    ifThen c' = (ifThen c).stripped := by
  simp [ifThen, conditional_strips "if" hpredicate hstatements halternate]

theorem unlessThen_strips (hpredicate : (c .predicate).Strips (c' .predicate))
    (hstatements : (c .statements).StripsBody (c' .statements))
    (halternate : (c .alternate).Strips (c' .alternate)) :
    unlessThen c' = (unlessThen c).stripped := by
  simp [unlessThen, hpredicate.whole.expression, Sequence.clause_strips hstatements,
    halternate.whole.write .elseBranch rfl]

theorem postfixConditional_strips (keyword : String)
    (hpredicate : (c .predicate).Strips (c' .predicate))
    (hstatements : (c .statements).StripsBody (c' .statements)) :
    postfixConditional keyword c' = (postfixConditional keyword c).stripped := by
  simp [postfixConditional, hstatements.write, hpredicate.whole.expression]

theorem whenClause_strips (self : Value)
    (hconditions : self.kind?.any (·.has .conditions) = true →
      (c .conditions).Strips (c' .conditions))
    (hstatements : self.kind?.any (·.has .statements) = true →
      (c .statements).StripsBody (c' .statements)) :
    whenClause self.erase c' = (whenClause self c).stripped := by
  refine require_strips fun hhas => (hconditions hhas).sequence_bind ?_
  rw [arguments_none_strips (hconditions hhas).elements, Writer.stripped_bind]
  refine bind_congr fun _ => require_strips fun hhas => ?_
  simp [Sequence.clause_strips (hstatements hhas)]

theorem caseOf_strips (hpredicate : (c .predicate).Strips (c' .predicate))
    (hconditions : (c .conditions).Strips (c' .conditions))
    (halternate : (c .alternate).Strips (c' .alternate)) : caseOf c' = (caseOf c).stripped := by
  have hsubject : (c' .predicate).ifPresent
      (Draft.afterKeyword <$> (c' .predicate).text .expression) =
        ((c .predicate).ifPresent
          (Draft.afterKeyword <$> (c .predicate).text .expression)).stripped :=
    hpredicate.ifPresent (by simp [hpredicate.whole.expression])
  rw [caseOf, caseOf, hsubject, Writer.stripped_bind]
  refine bind_congr fun _ => hconditions.sequence_bind ?_
  rw [Writer.mapM_stripped (fun _ _ hxy => hxy.write .whenClause rfl) hconditions.elements,
    halternate.whole.write .elseBranch rfl]
  rfl

theorem loop_strips (keyword : String) (hpredicate : (c .predicate).Strips (c' .predicate))
    (hstatements : (c .statements).StripsBody (c' .statements)) :
    loop keyword c' = (loop keyword c).stripped := by
  simp [loop, hpredicate.whole.expression, Sequence.clause_strips hstatements]

theorem loopVariable_strips (self : Value) (hname : (c' .name).value = (c .name).value) :
    loopVariable self.erase c' = (loopVariable self c).stripped := by
  rw [loopVariable, loopVariable, Value.kind?_erase, hname, Value.typeName_erase]
  split <;> rfl

theorem forLoop_strips (hindex : (c .index).Strips (c' .index))
    (hcollection : (c .collection).Strips (c' .collection))
    (hstatements : (c .statements).StripsBody (c' .statements)) :
    forLoop c' = (forLoop c).stripped := by
  simp [forLoop, hindex.whole.write .loopVariable rfl, hcollection.whole.expression,
    Sequence.clause_strips hstatements]

theorem rescueClause_strips (self : Value)
    (hexceptions : self.kind?.any (·.has .exceptions) = true →
      (c .exceptions).Strips (c' .exceptions))
    (hreference : (c' .reference).value = (c .reference).value)
    (hstatements : self.kind?.any (·.has .exceptions) = true →
      (c .statements).StripsBody (c' .statements)) :
    rescueClause self.erase c' = (rescueClause self c).stripped := by
  refine require_strips fun hhas => ?_
  have hlist := hexceptions hhas
  have hclause := Sequence.clause_strips (hstatements hhas)
  have hbound : (c' .reference).ifPresent (do
      Writer.declare (c' .reference).value
      return Draft.lit "=>" ++ Draft.word (c' .reference).value) =
        ((c .reference).ifPresent (do
          Writer.declare (c .reference).value
          return Draft.lit "=>" ++ Draft.word (c .reference).value)).stripped := by
    rw [FieldRendition.ifPresent, FieldRendition.ifPresent, hreference]
    split <;> rfl
  dsimp only
  rw [hlist.whole.isTrue]
  split
  · refine hlist.sequence_bind ?_
    simp only [arguments_none_strips hlist.elements, hbound, hclause]
    rfl
  · simp only [hbound, hclause]
    rfl

theorem ensureClause_strips (self : Value)
    (hstatements : self.kind?.any (·.has .statements) = true →
      (c .statements).StripsBody (c' .statements)) :
    ensureClause self.erase c' = (ensureClause self c).stripped :=
  require_strips fun hhas => by simp [Sequence.clause_strips (hstatements hhas)]

theorem beginBlock_strips (hstatements : (c .statements).StripsBody (c' .statements))
    (hrescues : (c .rescueClauses).Strips (c' .rescueClauses))
    (helse : (c .elseClause).Strips (c' .elseClause))
    (hensure : (c .ensureClause).Strips (c' .ensureClause)) :
    beginBlock c' = (beginBlock c).stripped := by
  rw [beginBlock, beginBlock, Sequence.clause_strips hstatements, Writer.stripped_bind]
  refine bind_congr fun _ => hrescues.sequence_bind ?_
  rw [Writer.mapM_stripped (fun _ _ hxy => hxy.write .rescueClause rfl) hrescues.elements,
    helse.whole.write .elseBranch rfl, hensure.ifPresent (hensure.whole.write .ensureClause rfl)]
  rfl

theorem jump_strips (keyword : String) (h : (c .arguments).Strips (c' .arguments)) :
    jump keyword c' = (jump keyword c).stripped := by
  rw [jump, jump, h.whole.isTrue, argumentsOf_strips h]
  split <;> rfl

/-! ## Every node in every role -/

theorem expression_strips {self : Value} (h : PartsStrip self c c') :
    expression self.erase c' = (expression self c).stripped := by
  have hname : (c' .name).value = (c .name).value := h.data fun _ => rfl
  cases self with
  | node kind field =>
    have part := h.part kind rfl
    have body := h.body kind rfl
    cases kind
    case methodDef =>
      exact methodDef_strips hname (part .receiver rfl rfl) (part .parameters rfl rfl)
        (body .body rfl rfl)
    case classDef =>
      exact classDef_strips (part .constantPath rfl rfl) (part .superclass rfl rfl)
        (body .body rfl rfl)
    case singletonClass =>
      exact singletonClass_strips (part .expression rfl rfl) (body .body rfl rfl)
    case moduleDef => exact moduleDef_strips (part .constantPath rfl rfl) (body .body rfl rfl)
    case ifThen =>
      exact ifThen_strips (part .predicate rfl rfl) (body .statements rfl rfl)
        (part .alternate rfl rfl)
    case unlessThen =>
      exact unlessThen_strips (part .predicate rfl rfl) (body .statements rfl rfl)
        (part .alternate rfl rfl)
    case caseOf =>
      exact caseOf_strips (part .predicate rfl rfl) (part .conditions rfl rfl)
        (part .alternate rfl rfl)
    case whileLoop | untilLoop =>
      exact loop_strips _ (part .predicate rfl rfl) (body .statements rfl rfl)
    case forLoop =>
      exact forLoop_strips (part .index rfl rfl) (part .collection rfl rfl)
        (body .statements rfl rfl)
    case beginBlock =>
      exact beginBlock_strips (body .statements rfl rfl) (part .rescueClauses rfl rfl)
        (part .elseClause rfl rfl) (part .ensureClause rfl rfl)
    case logicalNot => exact negation_strips (part .expression rfl rfl)
    case returnJump | breakJump | nextJump => exact jump_strips _ (part .arguments rfl rfl)
    case yieldCall => exact yieldCall_strips (part .arguments rfl rfl)
    case superCall => exact superCall_strips (part .arguments rfl rfl) (part .block rfl rfl)
    case interpolated => exact interpolated_strips (part .parts rfl rfl)
    case array => exact array_strips (part .elements rfl rfl)
    case hash => exact hash_strips (part .elements rfl rfl)
    case range =>
      exact range_strips (part .left rfl rfl) (part .right rfl rfl) (h.data fun _ => rfl)
    case statements => exact sequenceOf_strips false (h.statements rfl)
    case localWrite => exact localAssignment_strips hname (part .value rfl rfl)
    case instanceWrite | globalWrite | constantWrite =>
      exact assignment_strips hname (part .value rfl rfl)
    case constantPath => exact constantPath_strips (part .parent rfl rfl) hname
    case operatorWrite =>
      exact compoundAssignment_strips (part .target rfl rfl) (h.data fun _ => rfl)
        (part .value rfl rfl)
    case call =>
      have hbefore : (fun f => (c f).value) = field := funext h.before
      have hafter : (fun f => (c' f).value) = Kind.call.erased field := funext h.after
      refine call_strips (part .receiver rfl rfl) (part .arguments rfl rfl) (part .block rfl rfl)
        hname (h.data fun _ => rfl) ?_
      rw [hbefore, hafter, CallShape.of_erased]
    case logicalAnd | logicalOr =>
      have hkeyword : (c' .keyword).value = (c .keyword).value := h.data fun _ => rfl
      have hlogical := logical_strips (part .left rfl rfl) (part .right rfl rfl)
      simp only [Value.erase_node, expression, Value.kind?, hkeyword, hlogical,
        Writer.stripped_ite]
    case parentheses =>
      have hbody := (body .body rfl rfl).write false
      simp [Value.erase_node, expression, Value.kind?, hbody]
    case integer | float | symbol =>
      have hvalue : (c' .value).value = (c .value).value := by
        rw [h.before, h.after]
        rfl
      simp only [Value.erase_node, expression, Value.kind?, hvalue]
      rfl
    case string =>
      have hcontent : (c' .content).value = (c .content).value := h.data fun _ => rfl
      simp only [Value.erase_node, expression, Value.kind?, hcontent]
      rfl
    case localRead | instanceRead | globalRead | constantRead =>
      simp only [Value.erase_node, expression, Value.kind?, hname]
      rfl
    all_goals rfl
  | _ => rfl

section Roles

variable {self : Value}

theorem plainStatement_strips (h : PartsStrip self c c') :
    plainStatement self.erase c' = (plainStatement self c).stripped := by
  simp [plainStatement, expression_strips h]

theorem conditionalStatement_strips (keyword : String) {kind : Kind} {field : Field → Value}
    (hkind : kind = .ifThen ∨ kind = .unlessThen)
    (h : PartsStrip (.node kind field) c c') :
    conditionalStatement keyword (Value.node kind field).erase c' =
      (conditionalStatement keyword (.node kind field) c).stripped := by
  have hbefore : (fun f => (c f).value) = field := funext h.before
  have hafter : (fun f => (c' f).value) = kind.erased field := funext h.after
  have hown (f : Field) (hf : f = .statements ∨ f = .predicate) :
      kind.has f = true ∧ f ∈ kind.ownFields.map Prod.fst := by
    rcases hkind with rfl | rfl <;> rcases hf with rfl | rfl <;> decide
  have hcomments (f : Field) (hf : f = .statements ∨ f = .predicate) :
      (field f).hasLeafComments = true :=
    Value.hasLeafComments_field (h.comments rfl) (hown f hf).2
  have hpostfix (s : Setting) : isPostfix s (kind.erased field) = isPostfix s.stripped field :=
    isPostfix_erased s (hcomments _ (.inl rfl)) (hcomments _ (.inr rfl))
  have hshort := postfixConditional_strips keyword
    (h.part kind rfl .predicate (hown _ (.inr rfl)).1 rfl)
    (h.body kind rfl .statements (hown _ (.inl rfl)).1 rfl)
  simp only [conditionalStatement, hbefore, hafter, hpostfix, hshort, plainStatement_strips h,
    Writer.stripped_bind, Writer.stripped_read, bind_map_left, Writer.stripped_liftM,
    Writer.stripped_ite]

theorem callStatement_strips {field : Field → Value} (h : PartsStrip (.node .call field) c c') :
    callStatement (Value.node .call field).erase c' =
      (callStatement (.node .call field) c).stripped := by
  have hbefore : (fun f => (c f).value) = field := funext h.before
  have hafter : (fun f => (c' f).value) = Kind.call.erased field := funext h.after
  have hstripped (s : Setting) (locals : Locals) :
      isOutputCall s.stripped locals field = isOutputCall s locals field := rfl
  have hname : (c' .name).value = (c .name).value := h.data fun _ => rfl
  have hplain := plainStatement_strips h
  simp only [callStatement, hbefore, hafter, isOutputCall_erased, Writer.stripped_bind,
    Writer.stripped_read, bind_map_left, Writer.stripped_get, Writer.stripped_liftM, hstripped]
  refine bind_congr fun s => bind_congr fun locals => bind_congr fun isOutput => ?_
  rcases isOutput with _ | _
  · exact hplain
  · obtain ⟨zs, hitems, hitems'⟩ := exists_pairs (h.part .call rfl .arguments rfl rfl).elements
    rw [hitems, hitems']
    rcases zs with _ | ⟨z, zs⟩
    · exact hplain
    · exact outputCall_strips hname z.related

theorem statement_strips (h : PartsStrip self c c') :
    statement self.erase c' = (statement self c).stripped := by
  cases self with
  | node kind field =>
    cases kind
    case ifThen => exact conditionalStatement_strips _ (.inl rfl) h
    case unlessThen => exact conditionalStatement_strips _ (.inr rfl) h
    case call => exact callStatement_strips h
    all_goals exact plainStatement_strips h
  | _ => exact plainStatement_strips h

theorem body_strips (file : Bool) (h : PartsStrip self c c')
    (hproper : self.inGroup Kind.isTrivia = false) :
    body file self.erase c' = (body file self c).stripped := by
  rw [body, body, Value.isNull_erase, Value.isKind_erase]
  split
  · rfl
  · split
    · exact sequenceOf_strips file (h.statements ‹_›)
    · refine Sequence.write_strips file ?_
      have hself : Sequence.proper Sequence.Statement.value [⟨self, statement self c⟩] =
          [⟨self, statement self c⟩] := by
        simp [Sequence.proper, hproper]
      rw [hself]
      exact .cons ⟨hproper, rfl, statement_strips h⟩ .nil

theorem hashElement_strips (h : PartsStrip self c c') :
    hashElement self.erase c' = (hashElement self c).stripped := by
  cases self with
  | node kind field =>
    have part := h.part kind rfl
    cases kind
    case pair => exact pair_strips (part .key rfl rfl) (part .value rfl rfl)
    case doubleSplat => exact spread_strips (part .value rfl rfl) _
    all_goals rfl
  | _ => rfl

theorem argument_strips (h : PartsStrip self c c') :
    argument self.erase c' (expression self.erase c') =
      (argument self c (expression self c)).stripped := by
  have hexpression : (do
      let text ← (expression self.erase c').built
      let child ← self.erase.operator?
      return text.grouped (child.any fun child => child.needsParensAt Operator.argumentRank)) =
        Writer.stripped (do
          let text ← (expression self c).built
          let child ← self.operator?
          return text.grouped
            (child.any fun child => child.needsParensAt Operator.argumentRank)) := by
    simp [expression_strips h]
  cases self with
  | node kind field =>
    have part := h.part kind rfl
    cases kind
    case splat | blockArgument => exact spread_strips (part .expression rfl rfl) _
    case doubleSplat => exact hashElement_strips h
    case keywordHash => exact hashElements_strips (part .elements rfl rfl)
    all_goals exact hexpression
  | _ => exact hexpression

theorem elseBranch_strips_parts (h : PartsStrip self c c') :
    elseBranch self.erase c' = (elseBranch self c).stripped :=
  elseBranch_strips self fun hkind => h.body .elseBranch (eq_of_beq hkind) .statements rfl rfl

theorem alternate_strips (h : PartsStrip self c c') :
    alternate self.erase c' = (alternate self c).stripped := by
  rw [alternate, alternate, Value.isKind_erase]
  split
  · rename_i hkind
    have hkind := eq_of_beq hkind
    exact conditional_strips "elsif" (h.part _ hkind .predicate rfl rfl)
      (h.body _ hkind .statements rfl rfl) (h.part _ hkind .alternate rfl rfl)
  · exact elseBranch_strips_parts h

/-- A value whose parts are erased is written, in every role, as it was before. -/
theorem write_strips (h : PartsStrip self c c') :
    Rendition.Strips ⟨self, write self c⟩ ⟨self.erase, write self.erase c'⟩ := by
  have hname : (c' .name).value = (c .name).value := h.data fun _ => rfl
  have part (f : Field) (hhas : self.kind?.any (·.has f) = true)
      (hplace : ∀ kind : Kind, kind.has f = true → kind.place f = .part) :
      (c f).Strips (c' f) := by
    obtain ⟨kind, hkind, hhas⟩ := (Option.any_eq_true _ _).mp hhas
    exact h.part kind hkind f hhas (hplace kind hhas)
  have hstatements (hhas : self.kind?.any (·.has .statements) = true) :
      (c .statements).StripsBody (c' .statements) := by
    obtain ⟨kind, hkind, hhas⟩ := (Option.any_eq_true _ _).mp hhas
    exact h.body kind hkind .statements hhas rfl
  have hvalue (hhasName : self.kind?.any (·.has .name) = true)
      (hhasValue : self.kind?.any (·.has .value) = true) : (c .value).Strips (c' .value) := by
    obtain ⟨kind, hkind, hhasName⟩ := (Option.any_eq_true _ _).mp hhasName
    rw [hkind] at hhasValue
    refine h.part kind hkind .value hhasValue ?_
    revert hhasName hhasValue
    cases kind <;> decide
  refine ⟨rfl, fun role hplays => ?_⟩
  cases role with
  | expression => exact expression_strips h
  | statement => exact statement_strips h
  | body file => exact body_strips file h (by simpa [Value.plays] using hplays)
  | argument => simp [write, argument_strips h]
  | hashElement => simp [write, hashElement_strips h]
  | whenClause =>
    exact whenClause_strips self (fun hhas => part _ hhas fun _ _ => rfl) hstatements
  | rescueClause =>
    refine rescueClause_strips self (fun hhas => part _ hhas fun _ _ => rfl)
      (h.data fun _ => rfl) fun hhas => ?_
    obtain ⟨kind, hkind, hhas⟩ := (Option.any_eq_true _ _).mp hhas
    obtain rfl := Kind.eq_of_has_exceptions hhas
    exact h.body _ hkind .statements rfl rfl
  | elseBranch => exact elseBranch_strips_parts h
  | alternate => exact alternate_strips h
  | ensureClause => exact ensureClause_strips self hstatements
  | parameters => simp [write, parameters_strips self fun hkind => h.part _ hkind]
  | parameter sign => simp [write, parameter_strips self hname]
  | optionalParameter => simp [write, optionalParameter_strips self hname hvalue]
  | keywordParameter => simp [write, keywordParameter_strips self hname hvalue]
  | slot => exact (h.body _ (eq_of_beq hplays) .statements rfl rfl).write false
  | loopVariable => exact loopVariable_strips self hname
  | block =>
    exact block_strips (h.part _ (eq_of_beq hplays) .parameters rfl rfl)
      (h.body _ (eq_of_beq hplays) .body rfl rfl)

end Roles
end Rules

/-! ## Trees -/

namespace Value

theorem leafRendition_strips {v : Value} (h : v.isNode = false) :
    v.leafRendition.Strips v.erase.leafRendition := by
  have hkind : v.kind? = none := by
    cases v with
    | node kind field => cases h
    | _ => rfl
  refine Rules.write_strips ⟨fun f => ?_, fun f => ?_, fun kind hv => ?_, fun kind hv => ?_,
    fun hv => ?_, fun hv => ?_⟩
  · cases v with
    | node kind field => cases h
    | _ => rfl
  · cases v with
    | node kind field => cases h
    | _ => rfl
  · rw [hkind] at hv
    cases hv
  · rw [hkind] at hv
    cases hv
  · rw [isKind, hkind] at hv
    cases hv
  · rw [h] at hv
    cases hv

/-- A value is written after erasure as before if the nodes among its elements are, and the value
itself is if it is a node. -/
theorem strips_of_elements {v : Value}
    (hnode : v.isNode = true → v.rendition.toRendition.Strips v.erase.rendition.toRendition)
    (h : ∀ e ∈ v.elements, e.isNode = true →
      e.rendition.toRendition.Strips e.erase.rendition.toRendition) :
    v.rendition.Strips v.erase.rendition := by
  have hwhole (v : Value)
      (hv : v.isNode = true → v.rendition.toRendition.Strips v.erase.rendition.toRendition) :
      v.rendition.toRendition.Strips v.erase.rendition.toRendition := by
    cases hleaf : v.isNode
    · rw [toRendition_of_not_isNode hleaf,
        toRendition_of_not_isNode ((isNode_erase v).trans hleaf)]
      exact leafRendition_strips hleaf
    · exact hv hleaf
  refine ⟨hwhole v hnode, ?_⟩
  rw [rendition_elements_eq, rendition_elements_eq, elements_erase, List.map_map,
    List.forall₂_map_left_iff, List.forall₂_map_right_iff, List.forall₂_same]
  exact fun e he => hwhole e (h e he)

/-- A comment or blank line as a body is nothing where both are dropped. -/
theorem stripped_body_of_isTrivia {v : Value} (h : v.inGroup Kind.isTrivia = true) (file : Bool) :
    (v.rendition.write (.body file)).stripped = pure [] := by
  cases v with
  | node kind field =>
    have hbody : (Value.node kind field).rendition.write (.body file) = Sequence.write file
        [⟨.node kind field, Rules.statement (.node kind field) fun f => (field f).rendition⟩] := by
      cases kind <;> first | rfl | cases h
    have hproper : Sequence.proper Sequence.Statement.value
        [⟨.node kind field, Rules.statement (.node kind field) fun f => (field f).rendition⟩] =
          [] := by
      simp [Sequence.proper, h]
    rw [hbody]
    refine (Sequence.write_strips file
      (?_ : List.Forall₂ Sequence.Statement.Strips _ [])).symm.trans (by cases file <;> rfl)
    rw [hproper]
    exact .nil
  | _ => cases h

/-- What a body is after erasure. -/
theorem body_strips {v : Value} (h : v.rendition.Strips v.erase.rendition) :
    v.rendition.StripsBody v.erase.asBody.rendition := by
  refine ⟨by simp, fun file => ?_⟩
  rw [asBody, inGroup_erase]
  split
  · rw [stripped_body_of_isTrivia ‹_›]
    rfl
  · rename_i htrivia
    exact h.whole.write (.body file) (by simpa [plays] using htrivia)

/-- What the statements of a sequence are after erasure. -/
theorem statements_strips {v : Value} (h : v.rendition.Strips v.erase.rendition) :
    v.rendition.StripsStatements v.erase.withoutTrivia.rendition := by
  refine ⟨by simp, ?_⟩
  have hafter : v.erase.withoutTrivia.rendition.elements =
      Sequence.proper Rendition.value v.erase.rendition.elements := by
    rw [rendition_elements_eq, rendition_elements_eq, elements_withoutTrivia, Sequence.proper_map]
    simp [Sequence.proper]
  obtain ⟨zs, hbefore, hafter'⟩ := exists_pairs h.elements
  have hsame : Sequence.proper (Rendition.value ∘ RelatedPair.after) zs =
      Sequence.proper (Rendition.value ∘ RelatedPair.before) zs := by
    have hvalue (z : RelatedPair Rendition.Strips) : z.after.value = z.before.value.erase :=
      z.related.value
    simp [Sequence.proper, hvalue]
  rw [hafter, hafter', hbefore, Sequence.proper_map, Sequence.proper_map, hsame]
  exact forall₂_pairs _

/-- **A tree is written after erasure as it was before where comments and blank lines are
dropped**, in every role it can play. -/
theorem rendition_strips (v : Value) (h : v.hasLeafComments = true) :
    v.rendition.Strips v.erase.rendition := by
  induction v using Value.induction with
  | seq items ih =>
    refine strips_of_elements (fun hnode => by cases hnode) fun e he hnode => ?_
    exact (ih e he (hasLeafComments_item h he hnode)).whole
  | node kind field ih =>
    have hpart (f : Field) (hhas : kind.has f = true) (hplace : kind.place f ≠ .data) :
        (field f).rendition.Strips (field f).erase.rendition := by
      refine ih f (hasLeafComments_field h (Kind.mem_ownFields_of_owns (Kind.owns_of_has ?_ hhas)))
      rintro rfl
      exact hplace rfl
    have herased {f : Field} {place : Place} (hplace : kind.place f = place) :
        kind.erased field f = place.settle (field f) (field f).erase := by
      rw [Kind.erased, hplace]
    refine ⟨Rules.write_strips ⟨fun f => rendition_value _, fun f => rendition_value _,
      fun kind' hkind f hhas hplace => ?_, fun kind' hkind f hhas hplace => ?_,
      fun hkind => ?_, fun _ => h⟩, .nil⟩
    · cases hkind
      change (field f).rendition.Strips (kind.erased field f).rendition
      rw [herased hplace]
      exact hpart f hhas (by simp [hplace])
    · cases hkind
      change (field f).rendition.StripsBody (kind.erased field f).rendition
      rw [herased hplace]
      exact body_strips (hpart f hhas (by simp [hplace]))
    · obtain rfl : kind = .statements := Option.some_inj.mp (eq_of_beq hkind)
      exact statements_strips (hpart .body rfl (by decide))
  -- what is neither a sequence nor a node has no nodes in it
  | _ =>
    refine strips_of_elements (fun hnode => by cases hnode) fun e he hnode => ?_
    obtain ⟨items, hitems, _⟩ := exists_items_of_mem_elements he hnode
    cases hitems

end Value
end TerseRuby
