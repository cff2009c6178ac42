import TerseRuby.Proofs.Locals.Parts

/-!
# Every rule and the variables it enters

The lemmas `enters_…` go on with bodies, calls, definitions and control structures.  The main
statement is `Value.enters_rendition`: every value, in every role, enters what it declares in that
role, and asks only about the names of the calls without receiver in it.
-/

set_option autoImplicit false

namespace TerseRuby

open Writer (Enters enters_pure enters_throw enters_lift enters_lift_bind enters_read_bind
  enters_query_bind enters_declare enters_mapM enters_ite)

variable {asked : Value → Prop} {c : Field → FieldRendition}

namespace Rules

open FieldRendition (enters_ifPresent enters_ifPresent_declared enters_sequence_bind)

/-! ## Bodies -/

open Sequence (Statement)

/-- A body between a header and a keyword. -/
theorem enters_clause {r : FieldRendition} (hr : r.Enters asked) :
    Writer.Enters asked (Sequence.clause r) r.value.declared :=
  (hr.whole (.body false) rfl).bind_nil fun _ => enters_read_bind fun s =>
    (enters_lift (Sequence.finalState s r.value)).nil_bind fun _ => enters_pure _

theorem enters_writeFrom (file : Bool) (state : SeparatorState) {statements : List Statement}
    (h : ∀ statement ∈ statements,
      Writer.Enters asked statement.write statement.value.declared) :
    Writer.Enters asked (Sequence.writeFrom file state statements)
      (statements.flatMap (·.value.declared)) := by
  induction statements generalizing state with
  | nil => exact enters_pure _
  | cons statement rest ih =>
    obtain ⟨hhead, hrest⟩ := List.forall_mem_cons.mp h
    have hone : Writer.Enters asked (Sequence.writeOne (file && rest.isEmpty) statement)
        statement.value.declared := by
      rw [Sequence.writeOne]
      split
      · rename_i hvalue
        rw [hvalue]
        exact enters_pure _
      · rename_i hvalue
        rw [hvalue]
        exact enters_pure _
      · exact hhead
    rw [List.flatMap_cons]
    exact hone.bind fun _ => (ih _ hrest).bind_nil fun _ => enters_pure _

theorem mem_dropWhile_or {α : Type} (p : α → Bool) {x : α} {xs : List α} (hx : x ∈ xs) :
    x ∈ xs.dropWhile p ∨ p x = true := by
  induction xs with
  | nil => exact absurd hx List.not_mem_nil
  | cons y ys ih =>
    by_cases hy : p y = true
    · rw [List.dropWhile_cons_of_pos hy]
      rcases List.mem_cons.mp hx with rfl | hx
      · exact .inr hy
      · exact ih hx
    · rw [List.dropWhile_cons_of_neg hy]
      exact .inl hx

/-- What is dropped from a sequence is a comment or a blank line. -/
theorem mem_kept_or {α : Type} (s : Setting) (file : Bool) (value : α → Value) {x : α} {xs : List α}
    (hx : x ∈ xs) :
    x ∈ Sequence.kept s file value xs ∨ (value x).inGroup Kind.isTrivia = true := by
  have htrivia {kind : Kind} (hkind : kind.isTrivia = true) (h : (value x).isKind kind = true) :
      (value x).inGroup Kind.isTrivia = true := by
    obtain ⟨field, hvalue⟩ := Value.exists_of_isKind h
    rw [hvalue]
    exact hkind
  by_cases hkept : Sequence.isKept s (value x) = true
  · have hfilter : x ∈ xs.filter (fun x => Sequence.isKept s (value x)) :=
      List.mem_filter.mpr ⟨hx, hkept⟩
    rw [Sequence.kept]
    split
    · rcases mem_dropWhile_or (fun x => (value x).isKind .blankLine) hfilter with hdrop | hblank
      · rcases mem_dropWhile_or (fun x => (value x).isKind .blankLine)
          (List.mem_reverse.mpr hdrop) with hdrop | hblank
        · exact .inl (List.mem_reverse.mpr hdrop)
        · exact .inr (htrivia rfl hblank)
      · exact .inr (htrivia rfl hblank)
    · exact .inl hfilter
  · rw [Sequence.isKept] at hkept
    split at hkept
    · exact .inr (htrivia rfl ‹_›)
    · split at hkept
      · exact .inr (htrivia rfl ‹_›)
      · exact absurd rfl hkept

/-- What is dropped from a sequence declares nothing, so the sequence declares what all of its
statements do. -/
theorem enters_sequence (file : Bool) {statements : List Statement}
    (h : ∀ statement ∈ statements,
      Writer.Enters asked statement.write statement.value.declared) :
    Writer.Enters asked (Sequence.write file statements)
      (statements.flatMap (·.value.declared)) := by
  refine enters_read_bind fun s => ?_
  have hkept := Sequence.kept_subset s file Statement.value statements
  refine (enters_writeFrom file .start fun statement hstatement =>
    h statement (hkept hstatement)).congr fun n => ?_
  simp only [List.mem_flatMap]
  constructor
  · rintro ⟨statement, hstatement, hn⟩
    exact ⟨statement, hkept hstatement, hn⟩
  · rintro ⟨statement, hstatement, hn⟩
    rcases mem_kept_or s file Statement.value hstatement with hstatement | htrivia
    · exact ⟨statement, hstatement, hn⟩
    · rw [Value.declared_of_isTrivia htrivia] at hn
      exact absurd hn List.not_mem_nil

theorem enters_sequenceOf (file : Bool) {r : FieldRendition} (hr : r.Enters asked) :
    Writer.Enters asked (sequenceOf file r) r.value.declared := by
  refine enters_sequence_bind fun hcollection => ?_
  rw [← Value.flatMap_declared_elements hcollection, ← hr.values, List.flatMap_map]
  have hstatements :
      ∀ statement ∈ r.elements.map fun e => Statement.mk e.value (e.write .statement),
        Writer.Enters asked statement.write statement.value.declared := by
    intro statement hstatement
    obtain ⟨e, he, rfl⟩ := List.mem_map.mp hstatement
    exact hr.each e he .statement rfl
  simpa [List.flatMap_map] using enters_sequence file hstatements

/-! ## Blocks and calls -/

theorem enters_block (hparameters : (c .parameters).Enters asked) (hbody : (c .body).Enters asked) :
    Writer.Enters asked (block c) [] := by
  refine Enters.inInnerScope ((enters_parameterText hparameters).bind fun names =>
    (?_ : Writer.Enters asked _ (c .body).value.declared))
  refine enters_read_bind fun s => enters_ite (fun _ => ?_) fun _ => ?_
  · exact (hbody.whole (.body false) rfl).bind_nil fun _ => enters_pure _
  · exact ((enters_clause hbody).withBraces false).bind_nil fun _ => enters_pure _

theorem enters_attachedBlock {r : FieldRendition} (hr : r.Enters asked) :
    Writer.Enters asked (attachedBlock r) [] :=
  enters_ite (fun hkind => hr.whole .block hkind) fun _ => enters_pure _

theorem enters_unaryCall (h : (c .receiver).Enters asked) (op : Operator) :
    Writer.Enters asked (unaryCall c op) (c .receiver).value.declared := by
  refine (h.whole.operand _ _).bind_nil fun operand => ?_
  split
  · exact enters_ite (fun _ => enters_throw _) fun _ => enters_pure _
  · exact enters_pure _
  · exact enters_pure _

theorem enters_binaryCall (h : (c .receiver).Enters asked) (op : Operator) {argument : Rendition}
    (hargument : argument.Enters asked) :
    Writer.Enters asked (binaryCall c op argument)
      ((c .receiver).value.declared ++ argument.value.declared) :=
  (h.whole.operand _ _).bind fun _ => (hargument.operand _ _).bind_nil fun _ => enters_pure _

theorem enters_indexAssignment (h : (c .receiver).Enters asked) {keys : List Rendition}
    {value : Rendition} (hkeys : ∀ key ∈ keys, key.Enters asked) (hvalue : value.Enters asked) :
    Writer.Enters asked (indexAssignment c keys value)
      ((c .receiver).value.declared ++
        (keys.flatMap (·.value.declared) ++ value.value.declared)) := by
  have harguments : Writer.Enters asked (arguments keys none)
      (keys.flatMap (·.value.declared)) := by
    rw [arguments, Option.toList_none, List.append_nil]
    exact (enters_mapM fun key hkey => (hkeys key hkey .argument rfl).built).bind_nil
      fun _ => enters_pure _
  exact h.whole.memberOperand.bind fun _ => harguments.bind fun _ =>
    hvalue.assignedValue.bind_nil fun _ => enters_pure _

theorem enters_attributeAssignment (h : (c .receiver).Enters asked) {value : Rendition}
    (hvalue : value.Enters asked) :
    Writer.Enters asked (attributeAssignment c value)
      ((c .receiver).value.declared ++ value.value.declared) :=
  h.whole.memberOperand.bind fun _ => hvalue.assignedValue.bind_nil fun _ => enters_pure _

/-- The arguments and the block argument of a call. -/
theorem enters_argumentsAndBlock_bind (harguments : (c .arguments).Enters asked)
    (hblock : (c .block).Enters asked) {α : Type} {f : Text → Writer α}
    (hf : ∀ list, Writer.Enters asked (f list) []) :
    Writer.Enters asked (do
      let items ← (c .arguments).sequence
      let list ← arguments items (blockArgument? (c .block))
      f list) ((c .arguments).value.declared ++ (c .block).value.declaredInArgument) := by
  refine enters_sequence_bind fun hcollection => ?_
  rw [← flatMap_blockArgument?]
  exact (enters_arguments harguments hcollection (enters_of_blockArgument? hblock)).bind_nil hf

theorem enters_indexAccess (h : (c .receiver).Enters asked)
    (harguments : (c .arguments).Enters asked) (hblock : (c .block).Enters asked) :
    Writer.Enters asked (indexAccess c)
      ((c .receiver).value.declared ++
        ((c .arguments).value.declared ++ (c .block).value.declaredInArgument)) :=
  h.whole.memberOperand.bind fun _ =>
    enters_argumentsAndBlock_bind harguments hblock fun _ => enters_pure _

theorem declaredInArgument_of_isNull {v : Value} (h : v.isNull = true) :
    v.declaredInArgument = [] := by
  rw [Value.eq_null_of_isNull h]
  rfl

theorem declaredInArgument_of_not_isKind {v : Value} (h : v.isKind .blockArgument = false) :
    v.declaredInArgument = [] := by
  cases v with
  | node kind field => cases kind <;> first | rfl | simp [Value.isKind, Value.kind?] at h
  | _ => rfl

/-- Only a call without receiver and arguments asks whether its name is a variable. -/
theorem enters_argumentList (harguments : (c .arguments).Enters asked)
    (hblock : (c .block).Enters asked)
    (hname : (c .receiver).value.isNull = true → asked (c .name).value) :
    Writer.Enters asked (argumentList c)
      ((c .arguments).value.declared ++ (c .block).value.declaredInArgument) := by
  refine enters_ite (fun _ => enters_argumentsAndBlock_bind harguments hblock fun _ =>
    enters_pure _) fun hnone => ?_
  -- without arguments nothing is declared
  have hnothing : (c .arguments).value.declared ++ (c .block).value.declaredInArgument = [] := by
    simp only [blockArgument?, Bool.or_eq_true, not_or, Bool.not_eq_true] at hnone
    rw [Value.declared_of_not_isTrue hnone.1,
      declaredInArgument_of_not_isKind (by simpa using hnone.2)]
    rfl
  rw [hnothing]
  refine enters_ite (fun _ => enters_pure _) fun hreceiver => ?_
  refine enters_query_bind (fun s l l' hl => ?_) fun _ _ isVariable _ =>
    enters_ite (fun _ => enters_pure _) fun _ => enters_pure _
  rw [readsAsVariable, readsAsVariable, hl _ (hname (by simpa using hreceiver))]

theorem enters_plainCall (hreceiver : (c .receiver).Enters asked)
    (harguments : (c .arguments).Enters asked) (hblock : (c .block).Enters asked)
    (hname : (c .receiver).value.isNull = true → asked (c .name).value) :
    Writer.Enters asked (plainCall c)
      ((c .receiver).value.declared ++
        ((c .arguments).value.declared ++ (c .block).value.declaredInArgument)) :=
  (enters_ifPresent_declared (hreceiver.whole.memberOperand.bind_nil fun _ => enters_pure _)).bind
    fun _ => (enters_argumentList harguments hblock hname).bind_nil
      fun _ => (enters_attachedBlock hblock).bind_nil fun _ => enters_pure _

/-- The one element of a field with a single argument. -/
theorem elements_of_isSingleValue {r : FieldRendition} (hr : r.Enters asked)
    (h : CallShape.isSingleValue r.value = .ok true) :
    ∃ e : Rendition, r.elements = [e] ∧ e.Enters asked ∧ e.value.declared = r.value.declared := by
  obtain ⟨hcollection, v, hv⟩ := CallShape.of_isSingleValue h
  have hvalues := hr.values
  rw [hv] at hvalues
  obtain ⟨e, he, rfl⟩ := List.map_eq_singleton_iff.mp hvalues
  refine ⟨e, he, hr.each e (by simp [he]), ?_⟩
  rw [← Value.flatMap_declared_elements hcollection, hv, List.flatMap_singleton]

theorem enters_call (hreceiver : (c .receiver).Enters asked)
    (harguments : (c .arguments).Enters asked) (hblock : (c .block).Enters asked)
    (hname : (c .receiver).value.isNull = true → asked (c .name).value) :
    Writer.Enters asked (call c)
      ((c .receiver).value.declared ++
        ((c .arguments).value.declared ++ (c .block).value.declaredInArgument)) := by
  have hplain := enters_plainCall hreceiver harguments hblock hname
  rw [call]
  refine enters_lift_bind fun shape hshape => ?_
  obtain (rfl | rfl) | ⟨op, rfl, hunary⟩ | ⟨op, rfl, hbinary⟩ | ⟨rfl, hindex⟩ | ⟨rfl, hattribute⟩ :=
    CallShape.cases_of_eq_ok hshape
  · exact hplain
  · exact enters_indexAccess hreceiver harguments hblock
  · obtain ⟨hnone, hunadorned⟩ := CallShape.of_unary?_eq_some hunary
    rw [Value.declared_of_not_isTrue hnone, declaredInArgument_of_isNull
      (CallShape.block_isNull_of_isUnadorned hunadorned), List.append_nil, List.append_nil]
    exact enters_unaryCall hreceiver op
  · obtain ⟨hsingle, hunadorned⟩ := CallShape.of_binary?_eq_some hbinary
    obtain ⟨e, he, hargument, hdeclared⟩ := elements_of_isSingleValue harguments hsingle
    rw [declaredInArgument_of_isNull (CallShape.block_isNull_of_isUnadorned hunadorned),
      List.append_nil, ← hdeclared, he]
    exact enters_binaryCall hreceiver op hargument
  · obtain ⟨hcollection, hunadorned⟩ := CallShape.of_isIndexAssign hindex
    have hvalues := Value.flatMap_declared_elements hcollection
    rw [← harguments.values, List.flatMap_map] at hvalues
    rcases (c .arguments).elements.eq_nil_or_concat with hnil | ⟨keys, value, hlast⟩
    · rw [hnil]
      exact hplain
    · rw [List.concat_eq_append] at hlast
      have heach := harguments.each
      rw [hlast] at heach hvalues
      rw [declaredInArgument_of_isNull (CallShape.block_isNull_of_isUnadorned hunadorned),
        List.append_nil, ← hvalues, List.flatMap_append, List.flatMap_singleton, hlast,
        List.getLast?_concat, List.dropLast_concat]
      exact enters_indexAssignment hreceiver (fun key hkey => heach key (by simp [hkey]))
        (heach value (by simp))
  · obtain ⟨hsingle, hnull⟩ := CallShape.of_isAttributeAssign hattribute
    obtain ⟨e, he, hargument, hdeclared⟩ := elements_of_isSingleValue harguments hsingle
    rw [declaredInArgument_of_isNull hnull, List.append_nil, ← hdeclared, he]
    exact enters_attributeAssignment hreceiver hargument

theorem enters_superCall (harguments : (c .arguments).Enters asked)
    (hblock : (c .block).Enters asked) :
    Writer.Enters asked (superCall c)
      ((c .arguments).value.declared ++ (c .block).value.declaredInArgument) := by
  have hrest (list : Draft) : Writer.Enters asked (do
      let block ← attachedBlock (c .block)
      return Draft.lit "super" ++ list ++ block) [] :=
    (enters_attachedBlock hblock).bind_nil fun _ => enters_pure _
  rw [superCall]
  dsimp only
  split
  · exact enters_argumentsAndBlock_bind harguments hblock fun _ => hrest _
  · rename_i block hnull hargument
    rw [Value.declared_of_isNull hnull, ← flatMap_blockArgument?, hargument, List.nil_append,
      Option.toList_some, List.flatMap_singleton]
    have hb := enters_of_blockArgument? hblock block hargument
    exact (hb .argument rfl).built.bind_nil fun _ => hrest _
  · rename_i hnull hargument
    rw [Value.declared_of_isNull hnull, ← flatMap_blockArgument?, hargument]
    exact hrest _

theorem enters_yieldCall (h : (c .arguments).Enters asked) :
    Writer.Enters asked (yieldCall c) (c .arguments).value.declared := by
  refine enters_ite (fun _ => ?_) fun hnone => ?_
  · rw [← List.append_nil (c .arguments).value.declared]
    exact enters_argumentsOf_bind h fun _ => enters_pure _
  · rw [Value.declared_of_not_isTrue (by simpa using hnone)]
    exact enters_pure _

/-! ## Definitions -/

theorem enters_methodReceiver {r : FieldRendition} (hr : r.Enters asked) :
    Writer.Enters asked (methodReceiver r) r.value.declared :=
  hr.whole.expression.bind_nil fun _ => enters_pure _

theorem enters_methodDef (hreceiver : (c .receiver).Enters asked)
    (hparameters : (c .parameters).Enters asked) (hbody : (c .body).Enters asked) :
    Writer.Enters asked (methodDef c) (c .receiver).value.declared :=
  (enters_ifPresent_declared (enters_methodReceiver hreceiver)).bind_nil fun _ =>
    (Enters.inNewScope ((enters_parameterText hparameters).bind fun _ =>
      (enters_clause hbody).bind_nil fun _ => enters_pure _)).bind_nil fun _ => enters_pure _

theorem enters_classDef (hpath : (c .constantPath).Enters asked)
    (hsuperclass : (c .superclass).Enters asked) (hbody : (c .body).Enters asked) :
    Writer.Enters asked (classDef c)
      ((c .constantPath).value.declared ++ (c .superclass).value.declared) :=
  hpath.whole.expression.bind fun _ =>
    (enters_ifPresent_declared (hsuperclass.whole.memberOperand.bind_nil fun _ =>
      enters_pure _)).bind_nil fun _ =>
    (enters_clause hbody).inNewScope.bind_nil fun _ => enters_pure _

theorem enters_singletonClass (hobject : (c .expression).Enters asked)
    (hbody : (c .body).Enters asked) :
    Writer.Enters asked (singletonClass c) (c .expression).value.declared :=
  hobject.whole.memberOperand.bind_nil fun _ =>
    (enters_clause hbody).inNewScope.bind_nil fun _ => enters_pure _

theorem enters_moduleDef (hpath : (c .constantPath).Enters asked)
    (hbody : (c .body).Enters asked) :
    Writer.Enters asked (moduleDef c) (c .constantPath).value.declared :=
  hpath.whole.expression.bind_nil fun _ =>
    (enters_clause hbody).inNewScope.bind_nil fun _ => enters_pure _

/-! ## Conditionals, loops, exceptions and jumps -/

theorem enters_conditional (keyword : String) (hpredicate : (c .predicate).Enters asked)
    (hstatements : (c .statements).Enters asked) (halternate : (c .alternate).Enters asked) :
    Writer.Enters asked (conditional keyword c)
      ((c .predicate).value.declared ++
        ((c .statements).value.declared ++ (c .alternate).value.declared)) :=
  hpredicate.whole.expression.bind fun _ => (enters_clause hstatements).bind fun _ =>
    (halternate.whole .alternate rfl).bind_nil fun _ => enters_pure _

theorem enters_ifThen (hpredicate : (c .predicate).Enters asked)
    (hstatements : (c .statements).Enters asked) (halternate : (c .alternate).Enters asked) :
    Writer.Enters asked (ifThen c)
      ((c .predicate).value.declared ++
        ((c .statements).value.declared ++ (c .alternate).value.declared)) :=
  (enters_conditional "if" hpredicate hstatements halternate).bind_nil fun _ => enters_pure _

theorem enters_unlessThen (hpredicate : (c .predicate).Enters asked)
    (hstatements : (c .statements).Enters asked) (halternate : (c .alternate).Enters asked) :
    Writer.Enters asked (unlessThen c)
      ((c .predicate).value.declared ++
        ((c .statements).value.declared ++ (c .alternate).value.declared)) :=
  hpredicate.whole.expression.bind fun _ => (enters_clause hstatements).bind fun _ =>
    (halternate.whole .elseBranch rfl).bind_nil fun _ => enters_pure _

theorem enters_postfixConditional (keyword : String) (hpredicate : (c .predicate).Enters asked)
    (hstatements : (c .statements).Enters asked) :
    Writer.Enters asked (postfixConditional keyword c)
      ((c .statements).value.declared ++ (c .predicate).value.declared) :=
  (hstatements.whole (.body false) rfl).bind fun _ =>
    hpredicate.whole.expression.bind_nil fun _ => enters_pure _

theorem enters_caseOf (hpredicate : (c .predicate).Enters asked)
    (hconditions : (c .conditions).Enters asked) (halternate : (c .alternate).Enters asked) :
    Writer.Enters asked (caseOf c)
      ((c .predicate).value.declared ++
        ((c .conditions).value.declared ++ (c .alternate).value.declared)) :=
  (enters_ifPresent_declared (hpredicate.whole.expression.map _)).bind fun _ =>
    enters_sequence_bind fun hcollection => by
      rw [← Value.flatMap_declared_elements hcollection]
      exact (hconditions.mapM fun e he => he .whenClause rfl).bind fun _ =>
        (halternate.whole .elseBranch rfl).bind_nil fun _ => enters_pure _

theorem enters_loop (keyword : String) (hpredicate : (c .predicate).Enters asked)
    (hstatements : (c .statements).Enters asked) :
    Writer.Enters asked (loop keyword c)
      ((c .predicate).value.declared ++ (c .statements).value.declared) :=
  (hpredicate.whole.expression.withBraces true).bind fun _ =>
    (enters_clause hstatements).bind_nil fun _ => enters_pure _

theorem enters_forLoop (hindex : (c .index).Enters asked)
    (hcollection : (c .collection).Enters asked) (hstatements : (c .statements).Enters asked) :
    Writer.Enters asked (forLoop c)
      ((c .index).value.loopNames ++
        ((c .collection).value.declared ++ (c .statements).value.declared)) :=
  (hindex.whole .loopVariable rfl).bind fun _ =>
    (hcollection.whole.expression.withBraces true).bind fun _ =>
      (enters_clause hstatements).bind_nil fun _ => enters_pure _

theorem enters_beginBlock (hstatements : (c .statements).Enters asked)
    (hrescues : (c .rescueClauses).Enters asked) (helse : (c .elseClause).Enters asked)
    (hensure : (c .ensureClause).Enters asked) :
    Writer.Enters asked (beginBlock c)
      ((c .statements).value.declared ++ ((c .rescueClauses).value.declared ++
        ((c .elseClause).value.declared ++ (c .ensureClause).value.declaredInStatements))) := by
  have hensured : Writer.Enters asked
      ((c .ensureClause).ifPresent ((c .ensureClause).write .ensureClause))
      (c .ensureClause).value.declaredInStatements := by
    refine enters_ifPresent (hensure.whole .ensureClause rfl) fun hnull => ?_
    rw [Value.eq_null_of_isNull hnull]
    rfl
  refine (enters_clause hstatements).bind fun _ => enters_sequence_bind fun hcollection => ?_
  rw [← Value.flatMap_declared_elements hcollection]
  exact (hrescues.mapM fun e he => he .rescueClause rfl).bind fun _ =>
    (helse.whole .elseBranch rfl).bind fun _ => hensured.bind_nil fun _ => enters_pure _

theorem enters_jump (keyword : String) (h : (c .arguments).Enters asked) :
    Writer.Enters asked (jump keyword c) (c .arguments).value.declared := by
  refine enters_ite (fun _ => ?_) fun hnone => ?_
  · exact ((enters_argumentsOf h).withBraces true).bind_nil fun _ => enters_pure _
  · rw [Value.declared_of_not_isTrue (by simpa using hnone)]
    exact enters_pure _

/-! ## Every node in every role -/

variable {self : Value}

theorem enters_expression (h : PartsEnter asked self c) :
    Writer.Enters asked (expression self c) self.declared := by
  cases self with
  | node kind field =>
    have part (f : Field) (hown : kind.owns f = true) : (c f).Enters asked := h.enters f hown
    have hvalue (f : Field) : (c f).value = field f := h.values f
    cases kind
    case methodDef =>
      refine (enters_methodDef (part .receiver rfl) (part .parameters rfl)
        (part .body rfl)).congr fun n => ?_
      simp [Value.declared, hvalue]
    case classDef =>
      refine (enters_classDef (part .constantPath rfl) (part .superclass rfl)
        (part .body rfl)).congr fun n => ?_
      simp [Value.declared, hvalue]
    case singletonClass =>
      refine (enters_singletonClass (part .expression rfl) (part .body rfl)).congr fun n => ?_
      simp [Value.declared, hvalue]
    case moduleDef =>
      refine (enters_moduleDef (part .constantPath rfl) (part .body rfl)).congr fun n => ?_
      simp [Value.declared, hvalue]
    case ifThen =>
      refine (enters_ifThen (part .predicate rfl) (part .statements rfl)
        (part .alternate rfl)).congr fun n => ?_
      simp [Value.declared, hvalue]
    case unlessThen =>
      refine (enters_unlessThen (part .predicate rfl) (part .statements rfl)
        (part .alternate rfl)).congr fun n => ?_
      simp [Value.declared, hvalue]
    case caseOf =>
      refine (enters_caseOf (part .predicate rfl) (part .conditions rfl)
        (part .alternate rfl)).congr fun n => ?_
      simp [Value.declared, hvalue]
    case whileLoop | untilLoop =>
      refine (enters_loop _ (part .predicate rfl) (part .statements rfl)).congr fun n => ?_
      simp [Value.declared, hvalue]
    case forLoop =>
      refine (enters_forLoop (part .index rfl) (part .collection rfl)
        (part .statements rfl)).congr fun n => ?_
      simp [Value.declared, hvalue]
    case beginBlock =>
      refine (enters_beginBlock (part .statements rfl) (part .rescueClauses rfl)
        (part .elseClause rfl) (part .ensureClause rfl)).congr fun n => ?_
      simp [Value.declared, hvalue]
    case call =>
      have hname : (c .receiver).value.isNull = true → asked (c .name).value := by
        rw [hvalue, hvalue]
        exact h.asks
      refine (enters_call (part .receiver rfl) (part .arguments rfl)
        (part .block rfl) hname).congr fun n => ?_
      simp [Value.declared, hvalue]
    case logicalAnd | logicalOr =>
      have hleft := part .left rfl
      have hright := part .right rfl
      refine Enters.congr (enters_ite (fun _ => enters_logical hleft hright _ _)
        fun _ => enters_logical hleft hright _ _) fun n => ?_
      simp [Value.declared, hvalue]
    case logicalNot =>
      refine (enters_negation (part .expression rfl)).congr fun n => ?_
      simp [Value.declared, hvalue]
    case returnJump | breakJump | nextJump =>
      refine (enters_jump _ (part .arguments rfl)).congr fun n => ?_
      simp [Value.declared, hvalue]
    case yieldCall =>
      refine (enters_yieldCall (part .arguments rfl)).congr fun n => ?_
      simp [Value.declared, hvalue]
    case superCall =>
      refine (enters_superCall (part .arguments rfl) (part .block rfl)).congr fun n => ?_
      simp [Value.declared, hvalue]
    case interpolated =>
      refine (enters_interpolated (part .parts rfl)).congr fun n => ?_
      simp [Value.declared, hvalue]
    case array =>
      refine (enters_array (part .elements rfl)).congr fun n => ?_
      simp [Value.declared, hvalue]
    case hash =>
      refine (enters_hash (part .elements rfl)).congr fun n => ?_
      simp [Value.declared, hvalue]
    case range =>
      refine (enters_range (part .left rfl) (part .right rfl)).congr fun n => ?_
      simp [Value.declared, hvalue]
    case statements =>
      refine (enters_sequenceOf false (part .body rfl)).congr fun n => ?_
      simp [Value.declared, hvalue]
    case localWrite =>
      refine (enters_localAssignment (part .value rfl)).congr fun n => ?_
      simp [Value.declared, hvalue]
    case instanceWrite | globalWrite | constantWrite =>
      refine (enters_assignment (part .value rfl)).congr fun n => ?_
      simp [Value.declared, hvalue]
    case constantPath =>
      refine (enters_constantPath (part .parent rfl)).congr fun n => ?_
      simp [Value.declared, hvalue]
    case operatorWrite =>
      refine (enters_compoundAssignment (part .target rfl) (part .value rfl)).congr fun n => ?_
      simp [Value.declared, hvalue]
    case parentheses =>
      have hbody := (part .body rfl).whole (.body false) rfl
      refine (hbody.bind_nil fun _ => enters_pure _).congr fun n => ?_
      simp [Value.declaredAs, Value.declared, hvalue]
    case integer | float | symbol | string => exact enters_lift _
    case trueLiteral | falseLiteral | nilLiteral | selfLiteral | localRead | instanceRead |
        globalRead | constantRead =>
      exact enters_pure _
    all_goals exact enters_throw _
  | _ => exact enters_throw _

/-! ### Statements -/

theorem enters_plainStatement (h : PartsEnter asked self c) :
    Writer.Enters asked (plainStatement self c) self.declared :=
  enters_lift_bind fun _ _ => enters_ite
    (fun _ => (enters_expression h).built.bind_nil fun _ => enters_pure _)
    fun _ => enters_expression h

theorem isNull_of_isPostfix {s : Setting} {field : Field → Value}
    (h : isPostfix s field = .ok true) : (field .alternate).isNull = true := by
  rw [isPostfix] at h
  split at h
  · cases h
  · rename_i hnull
    simpa using hnull

/-- In either form, a conditional enters what all its parts declare. -/
theorem enters_conditionalStatement {kind : Kind} (hkind : kind = .ifThen ∨ kind = .unlessThen)
    {field : Field → Value} (keyword : String) (h : PartsEnter asked (.node kind field) c) :
    Writer.Enters asked (conditionalStatement keyword (.node kind field) c)
      (Value.node kind field).declared := by
  have hdeclared : (Value.node kind field).declared =
      (field .predicate).declared ++ ((field .statements).declared ++
        (field .alternate).declared) := by
    rcases hkind with rfl | rfl <;> simp [Value.declared]
  have part (f : Field) (hown : kind.owns f = true) : (c f).Enters asked := h.enters f hown
  refine enters_read_bind fun s => enters_lift_bind fun atEnd hend => enters_ite (fun htrue => ?_)
    fun _ => enters_plainStatement h
  subst htrue
  have hnull : (field .alternate).isNull = true := by
    rw [← isNull_of_isPostfix hend, h.values]
    rfl
  refine (enters_postfixConditional keyword (part .predicate ?_)
    (part .statements ?_)).congr fun n => ?_
  · rcases hkind with rfl | rfl <;> rfl
  · rcases hkind with rfl | rfl <;> rfl
  · rw [hdeclared, h.values, h.values, Value.declared_of_isNull hnull]
    simp [Value.field, or_comm]

/-- An output call has one argument and no receiver or block. -/
theorem of_isOutputCall {s : Setting} {locals : Locals} {field : Field → Value}
    (h : isOutputCall s locals field = .ok true) :
    (field .receiver).isNull = true ∧ (field .block).isNull = true ∧
      (field .arguments).isCollection = true ∧ ∃ v, (field .arguments).elements = [v] := by
  rw [isOutputCall] at h
  split at h
  · cases h
  rename_i hbare
  obtain ⟨_, _, h⟩ := exists_of_bind_eq_ok h
  split at h
  · cases h
  split at h
  · cases h
  obtain ⟨length, hlength, h⟩ := exists_of_bind_eq_ok h
  split at h
  · cases h
  rename_i hone
  rw [Value.length] at hlength
  split at hlength
  · cases hlength
    simp only [Bool.not_eq_true, Bool.not_eq_false', Bool.and_eq_true] at hbare
    exact ⟨hbare.1, CallShape.block_isNull_of_isUnadorned hbare.2, ‹_›,
      List.length_eq_one_iff.mp (by simpa using hone)⟩
  · cases hlength

theorem enters_outputCall {argument : Rendition} (h : argument.Enters asked) :
    Writer.Enters asked (outputCall c argument) argument.value.declared :=
  h.expression.bind_nil fun _ => enters_pure _

/-- Whether a call is one of output depends on the variables only through its own name, and only if
it has no receiver. -/
theorem isOutputCall_eq_of_alike {s : Setting} {l l' : Locals} {field : Field → Value}
    (hname : (field .receiver).isNull = true → asked (field .name))
    (hl : Locals.Alike s asked l l') : isOutputCall s l field = isOutputCall s l' field := by
  rw [isOutputCall, isOutputCall]
  by_cases hbare : (field .receiver).isNull = true
  · rw [hl _ (hname hbare)]
  · simp [hbare]

theorem enters_callStatement {field : Field → Value}
    (h : PartsEnter asked (.node .call field) c) :
    Writer.Enters asked (callStatement (.node .call field) c)
      (Value.node .call field).declared := by
  have hname : (c .receiver).value.isNull = true → asked (c .name).value := by
    rw [h.values, h.values]
    exact h.asks
  refine enters_query_bind (fun s l l' hl => isOutputCall_eq_of_alike hname hl)
    fun s l isOutput houtput => ?_
  split
  · rename_i argument rest hitems
    obtain ⟨hreceiver, hnull, hcollection, v, hv⟩ := of_isOutputCall houtput
    have harguments := h.enters .arguments rfl
    have hvalues := harguments.values
    rw [hv, hitems, List.map_cons, List.cons.injEq] at hvalues
    have hdeclared : argument.value.declared = (c .arguments).value.declared := by
      rw [← Value.flatMap_declared_elements hcollection, hv, ← hvalues.1, List.flatMap_singleton]
    refine (enters_outputCall (harguments.each argument (by simp [hitems]))).congr ?_
    have hbare := Value.declared_of_isNull hreceiver
    have hplain := declaredInArgument_of_isNull hnull
    rw [h.values] at hbare hplain
    have hcall : (Value.node .call field).declared = (field .arguments).declared := by
      simp only [Value.field] at hbare hplain
      simp [Value.declared, hbare, hplain]
    rw [hdeclared, h.values, hcall]
    exact fun n => .rfl
  · exact enters_plainStatement h

theorem enters_statement (h : PartsEnter asked self c) :
    Writer.Enters asked (statement self c) self.declared := by
  cases self with
  | node kind field =>
    cases kind
    case ifThen => exact enters_conditionalStatement (.inl rfl) _ h
    case unlessThen => exact enters_conditionalStatement (.inr rfl) _ h
    case call => exact enters_callStatement h
    all_goals exact enters_plainStatement h
  | _ => exact enters_plainStatement h

theorem enters_body (file : Bool) (h : PartsEnter asked self c) :
    Writer.Enters asked (body file self c) self.declared := by
  refine enters_ite (fun hnull => ?_) fun _ => enters_ite (fun hkind => ?_) fun _ => ?_
  · rw [Value.declared_of_isNull hnull]
    exact enters_pure _
  · obtain ⟨field, rfl⟩ := Value.exists_of_isKind hkind
    refine (enters_sequenceOf file (h.enters .body rfl)).congr fun n => ?_
    simp [Value.declared, h.values, Value.field]
  · have hone : ∀ one ∈ [Statement.mk self (statement self c)],
        Writer.Enters asked one.write one.value.declared := by
      simpa using enters_statement h
    simpa using enters_sequence file hone

/-! ### Other roles -/

theorem enters_hashElement (h : PartsEnter asked self c) :
    Writer.Enters asked (hashElement self c) self.declared := by
  rw [hashElement]
  split
  · rename_i hkind
    obtain ⟨field, rfl⟩ := Value.exists_of_kind? hkind
    refine (enters_pair (h.enters .key rfl) (h.enters .value rfl)).congr fun n => ?_
    simp [Value.declared, h.values, Value.field]
  · rename_i hkind
    obtain ⟨field, rfl⟩ := Value.exists_of_kind? hkind
    refine (enters_spread (h.enters .value rfl) _).congr fun n => ?_
    simp [Value.declared, h.values, Value.field]
  · exact enters_throw _

theorem enters_argument (h : PartsEnter asked self c) :
    Writer.Enters asked (argument self c (expression self c)) self.declared := by
  have hexpression : Writer.Enters asked (do
      let text ← (expression self c).built
      let child ← self.operator?
      return text.grouped (child.any fun child => child.needsParensAt Operator.argumentRank))
      self.declared :=
    (enters_expression h).built.bind_nil fun _ => (enters_lift _).nil_bind fun _ => enters_pure _
  rw [argument]
  split
  · rename_i hkind
    obtain ⟨field, rfl⟩ := Value.exists_of_kind? hkind
    refine (enters_spread (h.enters .expression rfl) _).congr fun n => ?_
    simp [Value.declared, h.values, Value.field]
  · rename_i hkind
    obtain ⟨field, rfl⟩ := Value.exists_of_kind? hkind
    refine (enters_spread (h.enters .expression rfl) _).congr fun n => ?_
    simp [Value.declared, h.values, Value.field]
  · exact enters_hashElement h
  · rename_i hkind
    obtain ⟨field, rfl⟩ := Value.exists_of_kind? hkind
    refine (enters_hashElements (h.enters .elements rfl)).congr fun n => ?_
    simp [Value.declared, h.values, Value.field]
  · exact hexpression

theorem enters_elseBranch (h : PartsEnter asked self c) :
    Writer.Enters asked (elseBranch self c) self.declared := by
  refine enters_ite (fun hnull => ?_) fun _ => enters_ite (fun hkind => ?_) fun _ =>
    enters_throw _
  · rw [Value.declared_of_isNull hnull]
    exact enters_pure _
  · obtain ⟨field, rfl⟩ := Value.exists_of_isKind hkind
    refine ((enters_clause (h.enters .statements rfl)).bind_nil
      fun _ => enters_pure _).congr fun n => ?_
    simp [Value.declared, h.values, Value.field]

theorem enters_alternate (h : PartsEnter asked self c) :
    Writer.Enters asked (alternate self c) self.declared := by
  refine enters_ite (fun hkind => ?_) fun _ => enters_elseBranch h
  obtain ⟨field, rfl⟩ := Value.exists_of_isKind hkind
  refine (enters_conditional "elsif" (h.enters .predicate rfl)
    (h.enters .statements rfl) (h.enters .alternate rfl)).congr fun n => ?_
  simp [Value.declared, h.values, Value.field]

theorem enters_whenClause (h : PartsEnter asked self c) :
    Writer.Enters asked (whenClause self c) self.declared := by
  refine enters_require_bind fun hconditions => ?_
  by_cases hstatements : self.kind?.any (·.has .statements) = true
  · obtain ⟨kind, hkind, hhas⟩ := (Option.any_eq_true _ _).mp hconditions
    rw [hkind] at hstatements
    obtain rfl := Kind.eq_of_has_conditions hhas hstatements
    obtain ⟨field, rfl⟩ := Value.exists_of_kind? hkind
    refine (enters_argumentsOf_bind (h.enters .conditions rfl) fun _ =>
      enters_require_bind fun _ => (enters_clause (h.enters .statements rfl)).bind_nil
        fun _ => enters_pure _).congr fun n => ?_
    simp [Value.declared, h.values, Value.field]
  · refine enters_sequence_bind fun hcollection => ?_
    have hnone : ∀ b ∈ (none : Option Rendition), b.Enters asked := by simp
    have hpart := h.enters .conditions (Kind.any_owns_of_any_has (by decide) hconditions)
    refine (enters_arguments hpart hcollection hnone).bind_throw
      (.missingMember self.typeName Field.statements.spelling) fun list => ?_
    rw [require, if_neg hstatements]
    rfl

theorem enters_rescueClause (h : PartsEnter asked self c) :
    Writer.Enters asked (rescueClause self c) self.declared := by
  refine enters_require_bind fun hhas => ?_
  obtain ⟨kind, hkind, hhas⟩ := (Option.any_eq_true _ _).mp hhas
  obtain rfl := Kind.eq_of_has_exceptions hhas
  obtain ⟨field, rfl⟩ := Value.exists_of_kind? hkind
  have hexceptions := h.enters .exceptions rfl
  have hreference : Writer.Enters asked ((c .reference).ifPresent do
      Writer.declare (c .reference).value
      return Draft.lit "=>" ++ Draft.word (c .reference).value)
      (if (c .reference).value.isNull then [] else [(c .reference).value]) := by
    refine enters_ite (fun hnull => ?_) fun hnull => ?_
    · rw [if_pos hnull]
      exact enters_pure _
    · rw [if_neg hnull]
      exact (enters_declare _).bind_nil fun _ => enters_pure _
  have hrest (exceptions : Draft) : Writer.Enters asked (do
      let reference ← (c .reference).ifPresent do
        Writer.declare (c .reference).value
        return Draft.lit "=>" ++ Draft.word (c .reference).value
      return Draft.lit "rescue" ++ exceptions ++ reference ++ (← Sequence.clause (c .statements)))
      ((if (c .reference).value.isNull then [] else [(c .reference).value]) ++
        (c .statements).value.declared) :=
    hreference.bind fun _ => (enters_clause (h.enters .statements rfl)).bind_nil
      fun _ => enters_pure _
  refine Enters.congr (?_ : Writer.Enters asked _ ((c .exceptions).value.declared ++
    ((if (c .reference).value.isNull then [] else [(c .reference).value]) ++
      (c .statements).value.declared))) fun n => ?_
  · refine enters_ite (fun _ => enters_argumentsOf_bind hexceptions fun _ => hrest _)
      fun hnone => ?_
    rw [Value.declared_of_not_isTrue (by simpa using hnone)]
    exact hrest _
  · simp only [h.values, Value.declared, Value.ownNames, Kind.openFields, Value.field,
      List.mem_append, List.flatMap_cons, List.flatMap_nil, List.append_nil]
    exact or_left_comm

theorem enters_ensureClause (h : PartsEnter asked self c) :
    Writer.Enters asked (ensureClause self c) self.declaredInStatements := by
  refine enters_require_bind fun hhas => ?_
  cases self with
  | node kind field =>
    have hvalue : (c .statements).value = field .statements := h.values .statements
    rw [Value.declaredInStatements, ← hvalue]
    have hpart := h.enters .statements (Kind.any_owns_of_any_has (by decide) hhas)
    exact (enters_clause hpart).bind_nil fun _ => enters_pure _
  | _ => simp [Value.kind?] at hhas

theorem enters_loopVariable (h : PartsEnter asked self c) :
    Writer.Enters asked (loopVariable self c) self.loopNames := by
  cases self with
  | node kind field =>
    have hname : (c .name).value = field .name := h.values .name
    cases kind
    case localRead | localWrite =>
      refine ((enters_declare _).bind_nil fun _ => enters_pure _).congr fun n => ?_
      simp [Value.loopNames, Value.isKind, Value.kind?, Value.field, hname]
    case instanceRead | globalRead => exact enters_pure _
    all_goals exact enters_throw _
  | _ => exact enters_throw _

/-- A value whose parts enter what they declare does so itself, in every role. -/
theorem enters_write (h : PartsEnter asked self c) :
    Rendition.Enters asked ⟨self, write self c⟩ := by
  rintro (_ | _ | _ | _ | _ | _ | _ | _ | _ | _ | _ | _ | _ | _ | _ | _ | _) hfits
  · exact enters_expression h
  · exact enters_statement h
  · exact enters_body _ h
  · exact (enters_argument h).map _
  · exact (enters_hashElement h).map _
  · exact enters_whenClause h
  · exact enters_rescueClause h
  · exact enters_elseBranch h
  · exact enters_alternate h
  · exact enters_ensureClause h
  · exact (enters_parameters self h.values h.enters).map _
  · exact (enters_parameter self _ (h.values .name)).map _
  · exact (enters_optionalParameter self (h.values .name) (h.values .value)
      fun hhas => h.enters .value (Kind.any_owns_of_any_has (by decide) hhas)).map _
  · exact (enters_keywordParameter self (h.values .name) (h.values .value)
      fun hhas => h.enters .value (Kind.any_owns_of_any_has (by decide) hhas)).map _
  · obtain ⟨field, rfl⟩ := Value.exists_of_isKind hfits
    have hstatements := (h.enters .statements rfl).whole (.body false) rfl
    rw [h.values] at hstatements
    exact hstatements
  · exact enters_loopVariable h
  · obtain ⟨field, rfl⟩ := Value.exists_of_isKind hfits
    exact enters_block (h.enters .parameters rfl) (h.enters .body rfl)

end Rules

namespace Value

/-- A value without fields enters nothing, and asks nothing. -/
theorem enters_leafRendition {v : Value} (h : v.isNode = false) (asked : Value → Prop) :
    v.leafRendition.Enters asked := by
  have hkind : v.kind? = none := by cases v <;> first | rfl | simp [isNode] at h
  refine Rules.enters_write ⟨fun f => ?_, fun f hhas => ?_, fun hbare => ?_⟩
  · cases v <;> first | rfl | simp [isNode] at h
  · simp [hkind] at hhas
  · cases v <;> simp [isNode, isBareCall] at h hbare

/-- A value enters what it declares if the nodes among its elements do, and the value itself does if
it is a node. -/
theorem enters_of_elements {v : Value} {asked : Value → Prop}
    (hnode : v.isNode = true → v.rendition.toRendition.Enters asked)
    (h : ∀ e ∈ v.elements, e.isNode = true → e.rendition.toRendition.Enters asked) :
    v.rendition.Enters asked := by
  have hwhole (v : Value) (hv : v.isNode = true → v.rendition.toRendition.Enters asked) :
      v.rendition.toRendition.Enters asked := by
    cases hleaf : v.isNode
    · rw [toRendition_of_not_isNode hleaf]
      exact enters_leafRendition hleaf asked
    · exact hv hleaf
  refine ⟨hwhole v hnode, fun r hr => ?_, by rw [rendition_elements, rendition_value]⟩
  rw [rendition_elements_eq] at hr
  obtain ⟨e, he, rfl⟩ := List.mem_map.mp hr
  exact hwhole e (h e he)

/-- **Every value enters what it declares**, in every role it can play, and asks only about the
names of the calls without receiver in it. -/
theorem enters_rendition (v : Value) (asked : Value → Prop) (h : ∀ n ∈ v.bareNames, asked n) :
    v.rendition.Enters asked := by
  induction v using Value.induction generalizing asked with
  | seq items ih =>
    refine enters_of_elements (fun hnode => by cases hnode) fun e he hnode => ?_
    exact (ih e he asked fun n hn => h n (bareNames_item_subset he hnode hn)).whole
  | node kind field ih =>
    refine ⟨Rules.enters_write ⟨fun f => rendition_value (field f), fun f hown => ?_,
      fun hbare => ?_⟩, List.forall_mem_nil _, rfl⟩
    · refine ih f asked fun n hn => h n (bareNames_field_subset field ?_ hn)
      exact Kind.mem_ownFields_of_owns hown
    · refine h _ ?_
      simp [bareNames, preorder, hbare]
  -- what is neither a sequence nor a node has no nodes in it
  | _ =>
    refine enters_of_elements (fun hnode => by cases hnode) fun e he hnode => ?_
    obtain ⟨items, hitems, _⟩ := exists_items_of_mem_elements he hnode
    cases hitems

end Value
end TerseRuby
