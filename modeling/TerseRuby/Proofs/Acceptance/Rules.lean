import TerseRuby.Proofs.Acceptance.Parts

/-!
# Verdicts on every rule

The lemmas `…_drafts` go on with bodies, calls, definitions and control structures.  Three rules
look at the setting, and each of them does so without any effect on the verdict:

* a sequence drops comments and blank lines, which are never refused (`Sequence.write_drafts`);
* a block is written with braces or with `do`, around the same body (`Rules.block_drafts`);
* a conditional is written with the condition in front or at the end, so that its parts are written
  in either order; and the walk over its parts that decides about this fails only where one of them
  is no node, and so is refused in either order (`Rules.conditionalStatement_decided`).

Where a rule is written in two ways, its lemma is one `…_decided`, which names the verdicts.
-/

set_option autoImplicit false

namespace TerseRuby

open Writer (decided_pure decided_ask decided_read decided_get decided_declare decided_declare_text
  drafts_pure drafts_throw drafts_ask drafts_mapM)
open Draft (decided_of decided_nil decided_lit decided_text decided_name decided_word
  decided_word_of_isText decided_separator decided_afterKeyword)
open FieldRendition (texts_ifPresent drafts_ifPresent)

variable {strict firm : Bool} {c : Field → FieldRendition}

/-! ## Bodies -/

namespace Sequence

theorem decided_separatorAt (state : SeparatorState) : Draft.Decided (.yes : Verdict strict) false
    (if state.needsSeparator then Draft.separator else []) := by
  split
  · exact decided_separator.loosen
  · exact decided_nil

/-- A statement is decided, and a comment has a text. -/
structure Statement.Judged (strict : Bool) (x : Statement) : Prop where
  /-- How it is written. -/
  write : x.value.inGroup Kind.isTrivia = false → x.write.Drafts strict false
  /-- It is typed. -/
  typed : x.value.isTyped = true

/-- A comment or a blank line is never refused. -/
theorem writeOne_of_isTrivia {x : Statement} (h : x.Judged strict)
    (htrivia : x.value.inGroup Kind.isTrivia = true) (endsFile : Bool) :
    (writeOne endsFile x).Decided (.yes : Verdict strict)
      (Draft.Decided (.yes : Verdict strict) false) := by
  have htyped := h.typed
  rw [writeOne]
  split
  · rename_i field hcomment
    rw [hcomment] at htyped
    have hline : Draft.Decided (.yes : Verdict strict) false
        (if endsFile then [] else Draft.lit "\n") := by
      split
      · exact decided_nil
      · exact decided_text _
    have htext : (field .text).isText = true := Value.isTyped_position htyped .text rfl
    exact decided_pure ((((decided_text _).append (decided_word_of_isText htext)).append
      hline).congr (by simp))
  · exact decided_pure (decided_text _)
  · rename_i hcomment hblank
    cases hvalue : x.value with
    | node kind field =>
      rw [hvalue] at htrivia hcomment hblank
      cases kind
      case comment => exact (hcomment field rfl).elim
      case blankLine => exact (hblank field rfl).elim
      all_goals cases htrivia
    | _ =>
      rw [hvalue] at htrivia
      cases htrivia

/-- For every statement there are verdicts, and for a comment or a blank line they are to accept. -/
theorem writeOne_decided {x : Statement} (h : x.Judged strict) :
    ∃ v u : Verdict strict,
      (∀ endsFile, (writeOne endsFile x).Decided v (Draft.Decided u false)) ∧
        (x.value.inGroup Kind.isTrivia = true → v.accepts ∧ u.accepts) := by
  cases htrivia : x.value.inGroup Kind.isTrivia
  · obtain ⟨v, u, hwrite⟩ := h.write htrivia
    refine ⟨v, u, fun endsFile => ?_, fun hfalse => by cases hfalse⟩
    rw [writeOne_eq htrivia]
    exact hwrite
  · exact ⟨.yes, .yes, writeOne_of_isTrivia h htrivia, fun _ => ⟨trivial, trivial⟩⟩

theorem writeFrom_decided (file : Bool) {v u : Statement → Verdict strict} {xs : List Statement}
    (h : ∀ x ∈ xs, ∀ endsFile, (writeOne endsFile x).Decided (v x) (Draft.Decided (u x) false))
    (state : SeparatorState) :
    (writeFrom file state xs).Decided (.all xs v) (Draft.Decided (.all xs u) false) := by
  induction xs generalizing state with
  | nil => exact (decided_pure (decided_nil.congr (by simp))).congr (by simp)
  | cons x xs ih =>
    obtain ⟨hhead, htail⟩ := List.forall_mem_cons.mp h
    refine ((hhead _).bind fun d hd => (ih htail _).bind fun e he => decided_pure ?_).congr
      (by simp)
    exact (((decided_separatorAt state).append hd).append he).congr (by simp)

/-- What the setting drops from a sequence is never refused, so the verdicts are those on all
statements. -/
theorem write_drafts (file : Bool) {xs : List Statement} (h : ∀ x ∈ xs, x.Judged strict) :
    (write file xs).Drafts strict false := by
  have hone (x : Statement) (hx : x ∈ xs) := writeOne_decided (h x hx)
  choose! v u hwrite htrivia using hone
  refine ⟨.all xs v, .all xs u, decided_read fun s => ?_⟩
  have hkept := kept_subset s file Statement.value xs
  have hdropped (x : Statement) (hx : x ∈ xs) (hno : x ∉ kept s file Statement.value xs) :
      (v x).accepts ∧ (u x).accepts :=
    htrivia x hx ((Rules.mem_kept_or s file Statement.value hx).resolve_left hno)
  have hsame (p : Statement → Verdict strict)
      (hp : ∀ x ∈ xs, x ∉ kept s file Statement.value xs → (p x).accepts) :
      (Verdict.all (kept s file Statement.value xs) p).accepts ↔ (Verdict.all xs p).accepts := by
    refine ⟨fun hall x hx => ?_, fun hall x hx => hall x (hkept hx)⟩
    by_cases hx' : x ∈ kept s file Statement.value xs
    · exact hall x hx'
    · exact hp x hx hx'
  have hwritten := writeFrom_decided file (fun x hx => hwrite x (hkept hx)) .start
  exact (hwritten.congr (hsame v fun x hx hno => (hdropped x hx hno).1)).mono fun d hd =>
    hd.congr (hsame u fun x hx hno => (hdropped x hx hno).2)

/-- A body between separators has the verdicts on the body. -/
theorem clause_decided {r : FieldRendition} {v u : Verdict strict}
    (h : (r.write (.body false)).Decided v (Draft.Decided u false))
    (htyped : r.value.isTyped = true) : (clause r).Decided v (Draft.Decided u true) := by
  obtain ⟨vs, hvs⟩ := Value.isAnswered_bodyStatements htyped
  refine (h.bind (u := .yes) fun d hd => decided_read fun s => ?_).congr (by simp)
  have hfinal : finalState s r.value =
      .ok (SeparatorState.afterAll (kept s false id vs)) := by
    rw [finalState, hvs]
    rfl
  exact decided_ask hfinal (decided_pure
    (((decided_separator.append hd).append (decided_separatorAt _)).congr (by simp)))

theorem clause_drafts {r : FieldRendition} (h : (r.write (.body false)).Drafts strict false)
    (htyped : r.value.isTyped = true) : (clause r).Drafts strict true := by
  obtain ⟨v, u, h⟩ := h
  exact ⟨v, u, clause_decided h htyped⟩

end Sequence

open Sequence (clause clause_decided)

namespace Rules

theorem sequenceOf_drafts (file : Bool) {r : FieldRendition}
    (hsequence : r.value.isSequence = true)
    (h : ∀ x ∈ r.elements, Sequence.Statement.Judged strict ⟨x.value, x.write .statement⟩) :
    (sequenceOf file r).Drafts strict false := by
  rw [sequenceOf, FieldRendition.sequence_eq hsequence, pure_bind]
  refine Sequence.write_drafts file fun statement hstatement => ?_
  obtain ⟨x, hx, rfl⟩ := List.mem_map.mp hstatement
  exact h x hx

/-! ## Blocks and calls -/

theorem decided_textIf (p : Prop) [Decidable p] (d : Text) :
    Draft.Decided (.yes : Verdict strict) false (if p then Draft.of d else []) := by
  split
  · exact decided_text d
  · exact decided_nil

/-- The form of a block does not matter to the verdict. -/
theorem block_drafts
    (hparameters : (c .parameters).value.isNull = false →
      ((c .parameters).text .parameters).Texts strict false)
    (hbody : ((c .body).write (.body false)).Drafts strict false)
    (htyped : (c .body).value.isTyped = true) : (block c).Drafts strict true := by
  obtain ⟨v, hnames⟩ := texts_ifPresent hparameters
  obtain ⟨u, u', hbody⟩ := hbody
  have hclause := (clause_decided hbody htyped).withBraces false
  refine ⟨v.and u, u', Writer.Decided.withLocals _ (hnames.bind fun names _ => ?_)⟩
  have hbars : Draft.Decided (.yes : Verdict strict) false
      (if names.isEmpty then [] else Draft.lit "|" ++ Draft.of names ++ Draft.lit "|") := by
    split
    · exact decided_nil
    · exact (((decided_text _).append (decided_text names)).append (decided_text _)).congr (by simp)
  have hgap : Draft.Decided (.yes : Verdict strict) false
      (if names.isEmpty then [] else Draft.of [.optionalBlank]) := by
    split
    · exact decided_nil
    · exact decided_text _
  dsimp only
  refine decided_read fun s => ?_
  split
  · refine (hbody.bind fun d hd => decided_pure ?_).congr (by simp)
    exact ((((decided_lit (by decide)).append hbars).append hd).append (decided_text _)).congr
      (by simp)
  · refine (hclause.bind fun d hd => decided_pure ?_).congr (by simp)
    exact (((((decided_lit (by decide)).append hgap).append hbars).append hd).append
      (decided_text _)).congr (by simp)

theorem attachedBlock_drafts {r : FieldRendition}
    (h : r.value.isKind .block = true → (r.write .block).Drafts strict false) :
    (attachedBlock r).Drafts strict false := by
  rw [attachedBlock]
  split
  · exact h ‹_›
  · exact drafts_pure decided_nil

theorem unaryCall_drafts (h : (c .receiver).Expressible strict true) (op : Operator) :
    (unaryCall c op).Drafts strict true := by
  obtain ⟨v, ht⟩ := h.operand op .right
  refine ⟨v.and .yes, .yes, ht.bind fun operand hfirm => ?_⟩
  split
  · rw [List.isEmpty_eq_false_iff.mpr (hfirm rfl)]
    have hgap : Draft.Decided (.yes : Verdict strict) false
        (if operand.startsWith (fun ch => ch == '~' || ch == '=') then Draft.lit " " else []) :=
      decided_textIf _ _
    exact decided_pure ((((decided_lit (by decide)).append hgap).append
      (decided_text operand)).congr (by simp))
  · exact decided_pure (((decided_lit (by decide)).append (decided_text operand)).congr (by simp))
  · refine decided_pure (((decided_lit ?_).append (decided_text _)).congr (by simp))
    split <;> decide

theorem binaryCall_drafts (h : (c .receiver).Expressible strict firm) (op : Operator)
    {argument : Rendition} (hargument : argument.Expressible strict false) :
    (binaryCall c op argument).Drafts strict true := by
  obtain ⟨v, hl⟩ := h.operand op .left
  obtain ⟨u, hr⟩ := hargument.operand op .right
  exact ⟨_, _, hl.bind fun left _ => hr.bind fun right _ => decided_pure
    (decided_of (Text.isFirm_joinInfix _ left (symbol_ne_empty op) right))⟩

theorem decided_dot : (dot c).Decided (.yes : Verdict strict) true := by
  rw [dot]
  split
  · exact decided_lit (by decide)
  · exact decided_lit (by decide)

theorem decided_brackets (keys : Text) : (brackets keys).Decided (.yes : Verdict strict) true :=
  (((decided_lit (by decide)).append (decided_text keys)).append (decided_text _)).congr (by simp)

theorem indexAssignment_drafts (h : (c .receiver).Expressible strict firm) {keys : List Rendition}
    (hkeys : ∀ x ∈ keys, (x.text .argument).Texts strict false) {value : Rendition}
    (hvalue : value.Expressible strict false) :
    (indexAssignment c keys value).Drafts strict true := by
  have hlist : (arguments keys none).Texts strict false := arguments_texts (by simpa using hkeys)
  obtain ⟨v, hr⟩ := h.memberOperand
  obtain ⟨u, hk⟩ := hlist
  obtain ⟨w, w', hd⟩ := hvalue.assignedValue
  exact ⟨_, _, hr.bind fun receiver _ => hk.bind fun keys _ => hd.bind fun d hd => decided_pure
    (((decided_text receiver).append (decided_brackets keys)).append hd)⟩

theorem attributeAssignment_drafts (h : (c .receiver).Expressible strict firm) {value : Rendition}
    (hvalue : value.Expressible strict false) :
    (attributeAssignment c value).Drafts strict true := by
  obtain ⟨v, hr⟩ := h.memberOperand
  obtain ⟨u, u', hd⟩ := hvalue.assignedValue
  exact ⟨_, _, hr.bind fun receiver _ => hd.bind fun d hd => decided_pure
    ((((decided_text receiver).append decided_dot).append (decided_text _)).append hd)⟩

/-- The arguments of a call and its block argument are decided. -/
structure ArgumentsJudged (strict : Bool) (c : Field → FieldRendition) : Prop where
  /-- The arguments. -/
  arguments : ∀ x ∈ (c .arguments).elements, (x.text .argument).Texts strict false
  /-- The block argument. -/
  block : (c .block).value.isKind .blockArgument = true →
    ((c .block).text .argument).Texts strict false

theorem ArgumentsJudged.texts (h : ArgumentsJudged strict c) :
    (Rules.arguments (c .arguments).elements (blockArgument? (c .block))).Texts strict false := by
  refine arguments_texts fun x hx => ?_
  rcases List.mem_append.mp hx with hx | hx
  · exact h.arguments x hx
  · rw [blockArgument?] at hx
    split at hx
    · obtain rfl := List.mem_singleton.mp hx
      exact h.block ‹_›
    · cases hx

theorem indexAccess_drafts (h : (c .receiver).Expressible strict firm)
    (hsequence : (c .arguments).value.isSequence = true) (harguments : ArgumentsJudged strict c) :
    (indexAccess c).Drafts strict true := by
  obtain ⟨v, hr⟩ := h.memberOperand
  obtain ⟨u, hk⟩ := harguments.texts
  rw [indexAccess, FieldRendition.sequence_eq hsequence]
  exact ⟨_, _, hr.bind fun receiver _ => hk.bind fun keys _ => decided_pure
    ((decided_text receiver).append (decided_brackets keys))⟩

theorem argumentList_drafts (hname : (c .name).value.isText = true)
    (hsequence : (c .arguments).value.isSequence = true) (harguments : ArgumentsJudged strict c) :
    (argumentList c).Drafts strict false := by
  obtain ⟨v, ht⟩ := harguments.texts
  rw [argumentList, FieldRendition.sequence_eq hsequence]
  split
  · exact ⟨_, _, ht.bind fun t _ => decided_pure (decided_text t).parenthesized.loosen⟩
  split
  · exact drafts_pure decided_nil
  refine ⟨.yes, .yes, decided_read fun s => decided_get fun locals => ?_⟩
  obtain ⟨isVariable, hanswer⟩ := isAnswered_readsAsVariable s locals hname
  refine decided_ask hanswer ?_
  split
  · exact decided_pure (decided_text _)
  · exact decided_pure decided_nil

theorem plainCall_drafts (hname : (c .name).value.isName = true)
    (h : (c .receiver).value.isNull = false → (c .receiver).Expressible strict firm)
    (hsequence : (c .arguments).value.isSequence = true) (harguments : ArgumentsJudged strict c)
    (hblock : (attachedBlock (c .block)).Drafts strict false) :
    (plainCall c).Drafts strict true := by
  have hreceiver : ((c .receiver).ifPresent do
      return Draft.of (← (c .receiver).memberOperand) ++ dot c).Drafts strict false := by
    refine drafts_ifPresent fun hnull => ?_
    obtain ⟨v, ht⟩ := (h hnull).memberOperand
    exact ⟨_, _, ht.bind fun t _ => decided_pure ((decided_text t).append decided_dot).loosen⟩
  obtain ⟨v, v', hr⟩ := hreceiver
  obtain ⟨u, u', hl⟩ := argumentList_drafts (Value.isText_of_isName hname) hsequence harguments
  obtain ⟨w, w', hb⟩ := hblock
  exact ⟨_, _, hr.bind fun receiver hr => hl.bind fun list hl => hb.bind fun block hb =>
    decided_pure (((hr.append (decided_name hname)).append hl).append hb)⟩

theorem call_drafts (hname : (c .name).value.isName = true)
    (h : (c .receiver).value.isNull = false → (c .receiver).Expressible strict true)
    (hsequence : (c .arguments).value.isSequence = true) (harguments : ArgumentsJudged strict c)
    (hblock : (attachedBlock (c .block)).Drafts strict false)
    (hsingle : CallShape.isSingleValue (c .arguments).value = .ok true →
      ∀ x ∈ (c .arguments).elements, x.Expressible strict false)
    (hlast : CallShape.isIndexAssign (fun f => (c f).value) = .ok true →
      ∀ x, (c .arguments).elements.getLast? = some x → x.Expressible strict false) :
    (call c).Drafts strict true := by
  have hplain := plainCall_drafts hname h hsequence harguments hblock
  have hanswer : IsAnswered (CallShape.of fun f => (c f).value) :=
    CallShape.isAnswered_of (Value.isText_of_isName hname) hsequence
  obtain ⟨shape, hshape⟩ := hanswer
  -- only a call with a receiver has another form than that of a name
  have hreceiver (hne : shape ≠ .plain) : (c .receiver).Expressible strict true := by
    refine h (Bool.eq_false_iff.mpr fun hnull => hne ?_)
    rw [CallShape.of, if_pos hnull] at hshape
    exact (Except.ok.inj hshape).symm
  refine drafts_ask hshape ?_
  rcases CallShape.cases_of_eq_ok hshape with
    (rfl | rfl) | ⟨op, rfl, _⟩ | ⟨op, rfl, hbinary⟩ | ⟨rfl, hindex⟩ | ⟨rfl, hattribute⟩
  · exact hplain
  · exact indexAccess_drafts (hreceiver (by simp)) hsequence harguments
  · exact unaryCall_drafts (hreceiver (by simp)) op
  · have hargument := hsingle (CallShape.of_binary?_eq_some hbinary).1
    cases hitems : (c .arguments).elements with
    | nil => exact hplain
    | cons x xs =>
      exact binaryCall_drafts (hreceiver (by simp)) op (hargument x (by simp [hitems]))
  · have hassigned := hlast hindex
    cases hvalue : (c .arguments).elements.getLast? with
    | none => exact hplain
    | some value =>
      exact indexAssignment_drafts (hreceiver (by simp))
        (fun x hx => harguments.arguments x ((List.dropLast_sublist _).subset hx))
        (hassigned value hvalue)
  · have hargument := hsingle (CallShape.of_isAttributeAssign hattribute).1
    cases hitems : (c .arguments).elements with
    | nil => exact hplain
    | cons x xs =>
      exact attributeAssignment_drafts (hreceiver (by simp)) (hargument x (by simp [hitems]))

theorem superCall_drafts
    (hsequence : (c .arguments).value.isNull = true ∨ (c .arguments).value.isSequence = true)
    (harguments : ArgumentsJudged strict c)
    (hblock : (attachedBlock (c .block)).Drafts strict false) :
    (superCall c).Drafts strict true := by
  obtain ⟨u, u', hb⟩ := hblock
  have hattached (d : Draft) (hd : d.Decided (.yes : Verdict strict) false) :
      (do return Draft.lit "super" ++ d ++ (← attachedBlock (c .block))).Decided u
        (Draft.Decided u' true) :=
    (hb.bind fun e he => decided_pure
      ((((decided_lit (by decide)).append hd).append he).congr (by simp))).congr (by simp)
  rw [superCall]
  dsimp only
  cases hnull : (c .arguments).value.isNull
  · obtain ⟨v, ht⟩ := harguments.texts
    rw [FieldRendition.sequence_eq (hsequence.resolve_left (by simp [hnull]))]
    exact ⟨_, _, ht.bind fun t _ => hattached _ (decided_text t).parenthesized.loosen⟩
  · cases hargument : blockArgument? (c .block) with
    | none => exact ⟨_, _, hattached _ decided_nil⟩
    | some block =>
      rw [blockArgument?] at hargument
      split at hargument
      · cases hargument
        obtain ⟨v, ht⟩ := harguments.block ‹_›
        exact ⟨_, _, ht.bind fun t _ => hattached _
          (((decided_text _).append (decided_text t)).congr (by simp))⟩
      · cases hargument

theorem yieldCall_drafts (hsequence : (c .arguments).value.isSequence = true)
    (h : ∀ x ∈ (c .arguments).elements, (x.text .argument).Texts strict false) :
    (yieldCall c).Drafts strict true := by
  have hlist : (arguments (c .arguments).elements none).Texts strict false :=
    arguments_texts (by simpa using h)
  obtain ⟨v, ht⟩ := hlist
  rw [yieldCall, FieldRendition.sequence_eq hsequence]
  split
  · exact ⟨_, _, ht.bind fun t _ => decided_pure
      ((decided_lit (by decide)).append (decided_text t).parenthesized)⟩
  · exact drafts_pure (decided_lit (by decide))

/-- A call of output has the verdict on its argument. -/
theorem outputCall_decided (hname : (c .name).value.isName = true) {argument : Rendition}
    {p : Verdict strict} (hp : (argument.text .expression).Decided p (Text.IsFirm firm)) :
    (outputCall c argument).Decided p (Draft.Decided (.yes : Verdict strict) true) :=
  (hp.bind fun t _ => decided_pure
    (((decided_name hname).append (decided_afterKeyword t)).congr (by simp))).congr (by simp)

/-! ## Definitions -/

theorem methodDef_drafts (hname : (c .name).value.isName = true)
    (hreceiver : (c .receiver).value.isNull = false → (c .receiver).Expressible strict firm)
    (hparameters : (c .parameters).value.isNull = false →
      ((c .parameters).text .parameters).Texts strict false)
    (hbody : (clause (c .body)).Drafts strict true) : (methodDef c).Drafts strict true := by
  have hobject : ((c .receiver).ifPresent (methodReceiver (c .receiver))).Drafts strict false := by
    refine drafts_ifPresent fun hnull => ?_
    obtain ⟨v, ht⟩ := (hreceiver hnull).text
    exact ⟨_, _, ht.bind fun t _ => decided_pure ((decided_text _).append (decided_text _))⟩
  obtain ⟨v, v', hr⟩ := hobject
  obtain ⟨u, hn⟩ := texts_ifPresent hparameters
  obtain ⟨w, w', hb⟩ := hbody
  have hrest : (Writer.inNewScope do
      let names ← (c .parameters).ifPresent ((c .parameters).text .parameters)
      let body ← clause (c .body)
      return Draft.grouped (!names.isEmpty) (Draft.of names) ++ body).Decided (u.and (w.and .yes))
        (Draft.Decided w' false) :=
    Writer.Decided.withLocals _ (hn.bind fun names _ => hb.bind fun d hd => decided_pure
      ((((decided_text names).grouped _).append hd).congr (by simp)).loosen)
  exact ⟨_, _, hr.bind fun receiver hr => hrest.bind fun rest hrest => decided_pure
    (((((decided_lit (by decide)).append hr).append (decided_name hname)).append hrest).append
      (decided_text _))⟩

theorem classDef_drafts (hpath : (c .constantPath).Expressible strict firm)
    (hsuperclass : (c .superclass).value.isNull = false → (c .superclass).Expressible strict firm)
    (hbody : (clause (c .body)).Drafts strict true) : (classDef c).Drafts strict true := by
  have hextends : ((c .superclass).ifPresent do
      return Draft.lit "<" ++ Draft.of (← (c .superclass).memberOperand)).Drafts strict false := by
    refine drafts_ifPresent fun hnull => ?_
    obtain ⟨v, ht⟩ := (hsuperclass hnull).memberOperand
    exact ⟨_, _, ht.bind fun t _ => decided_pure ((decided_text _).append (decided_text t))⟩
  obtain ⟨v, hp⟩ := hpath.text
  obtain ⟨u, u', hs⟩ := hextends
  obtain ⟨w, w', hb⟩ := hbody
  exact ⟨_, _, hp.bind fun path _ => hs.bind fun superclass hs => (hb.withLocals _).bind
    fun body hb => decided_pure (((((decided_lit (by decide)).append (decided_text path)).append
      hs).append hb).append (decided_text _))⟩

theorem singletonClass_drafts (hobject : (c .expression).Expressible strict firm)
    (hbody : (clause (c .body)).Drafts strict true) : (singletonClass c).Drafts strict true := by
  obtain ⟨v, ho⟩ := hobject.memberOperand
  obtain ⟨u, u', hb⟩ := hbody
  exact ⟨_, _, ho.bind fun object _ => (hb.withLocals _).bind fun body hb => decided_pure
    ((((decided_lit (by decide)).append (decided_text object)).append hb).append (decided_text _))⟩

theorem moduleDef_drafts (hpath : (c .constantPath).Expressible strict firm)
    (hbody : (clause (c .body)).Drafts strict true) : (moduleDef c).Drafts strict true := by
  obtain ⟨v, hp⟩ := hpath.text
  obtain ⟨u, u', hb⟩ := hbody
  exact ⟨_, _, hp.bind fun path _ => (hb.withLocals _).bind fun body hb => decided_pure
    ((((decided_lit (by decide)).append (decided_text path)).append hb).append (decided_text _))⟩

/-! ## Conditionals, loops, exceptions and jumps -/

theorem elseBranch_drafts {v : Value}
    (hstrict : strict = true → v.isNull = true ∨ v.isKind .elseBranch = true)
    (h : v.isKind .elseBranch = true → (clause (c .statements)).Drafts strict true) :
    (elseBranch v c).Drafts strict false := by
  rw [elseBranch]
  split
  · exact drafts_pure decided_nil
  rename_i hnull
  split
  · obtain ⟨u, u', hd⟩ := h ‹_›
    exact ⟨_, _, hd.bind fun d hd => decided_pure ((decided_text _).append hd).loosen⟩
  · rename_i hkind
    refine drafts_throw (Bool.eq_false_iff.mpr fun h => ?_) _
    exact (hstrict h).elim hnull hkind

section Conditional

variable {p q r q' r' : Verdict strict} {keyword : String}

theorem conditional_decided
    (hp : ((c .predicate).text .expression).Decided p (Text.IsFirm firm))
    (hq : (clause (c .statements)).Decided q (Draft.Decided q' true))
    (hr : ((c .alternate).write .alternate).Decided r (Draft.Decided r' false)) :
    (conditional keyword c).Decided (p.and (q.and r)) (Draft.Decided (q'.and r') true) :=
  (hp.bind fun predicate _ => hq.bind fun body hbody => hr.bind fun otherwise hotherwise =>
    decided_pure (((((decided_text _).append (decided_afterKeyword predicate)).append
      hbody).append hotherwise).congr (by simp))).congr (by simp)

theorem ifThen_decided
    (hp : ((c .predicate).text .expression).Decided p (Text.IsFirm firm))
    (hq : (clause (c .statements)).Decided q (Draft.Decided q' true))
    (hr : ((c .alternate).write .alternate).Decided r (Draft.Decided r' false)) :
    (ifThen c).Decided (p.and (q.and r)) (Draft.Decided (q'.and r') true) :=
  ((conditional_decided hp hq hr).bind fun d hd => decided_pure
    ((hd.append (decided_text _)).congr (by simp))).congr (by simp)

theorem unlessThen_decided
    (hp : ((c .predicate).text .expression).Decided p (Text.IsFirm firm))
    (hq : (clause (c .statements)).Decided q (Draft.Decided q' true))
    (hr : ((c .alternate).write .elseBranch).Decided r (Draft.Decided r' false)) :
    (unlessThen c).Decided (p.and (q.and r)) (Draft.Decided (q'.and r') true) :=
  (hp.bind fun predicate _ => hq.bind fun body hbody => hr.bind fun otherwise hotherwise =>
    decided_pure ((((((decided_text _).append (decided_afterKeyword predicate)).append
      hbody).append hotherwise).append (decided_text _)).congr (by simp))).congr (by simp)

theorem postfixConditional_decided
    (hp : ((c .predicate).text .expression).Decided p (Text.IsFirm firm))
    (hq : ((c .statements).write (.body false)).Decided q (Draft.Decided q' false)) :
    (postfixConditional keyword c).Decided (p.and q) (Draft.Decided q' false) :=
  (hq.bind fun body hbody => hp.bind fun predicate _ => decided_pure
    ((((hbody.append (decided_text _)).append (decided_text _)).append
      (decided_afterKeyword predicate)).congr (by simp))).congr (by simp [and_comm])

end Conditional

/-- The walk that decides about the place of the condition meets nothing but nodes. -/
theorem isAnswered_isPostfix (s : Setting) {field : Field → Value} {vs : List Value}
    (hpredicate : (field .predicate).isNode = true)
    (hbody : (field .statements).bodyStatements = .ok vs)
    (hstatements : ∀ v ∈ vs, v.isNode = true) : IsAnswered (isPostfix s field) := by
  have hcheck (v : Value) (hv : v.isNode = true) : IsAnswered (checkBlock v) := by
    cases v with
    | node kind field => exact isAnswered_ok _
    | _ => cases hv
  rw [isPostfix]
  split
  · exact isAnswered_ok _
  have honly : IsAnswered (onlyStatement? s (field .statements)) := by
    rw [onlyStatement?, hbody]
    refine (isAnswered_ok vs).bind fun _ _ => ?_
    split <;> exact isAnswered_ok _
  refine honly.bind fun only honly => ?_
  split
  · exact isAnswered_ok _
  obtain ⟨vs', hvs', hmem⟩ := mem_of_onlyStatement? honly
  rw [hbody] at hvs'
  cases hvs'
  refine (hcheck _ (hstatements _ hmem)).bind fun _ _ => ?_
  split
  · exact isAnswered_ok _
  refine (hcheck _ hpredicate).bind fun _ _ => ?_
  split <;> exact isAnswered_ok _

/-- **The place of the condition does not matter to the verdict.** -/
theorem conditionalStatement_decided {v : Value} {p q q' : Verdict strict} {keyword : String}
    {vs : List Value} (hp : ((c .predicate).text .expression).Decided p (Text.IsFirm firm))
    (hq : ((c .statements).write (.body false)).Decided q (Draft.Decided q' false))
    (hplain : (plainStatement v c).Decided (p.and q) (Draft.Decided q' false))
    (hpredicate : p.accepts → (c .predicate).value.isNode = true)
    (hbody : (c .statements).value.bodyStatements = .ok vs)
    (hstatements : q.accepts → ∀ v ∈ vs, v.isNode = true) :
    (conditionalStatement keyword v c).Decided (p.and q) (Draft.Decided q' false) := by
  refine decided_read fun s => ?_
  cases hshort : isPostfix s (fun f => (c f).value) with
  | error fault =>
    -- the walk fails only where the parts are refused in either order
    refine fun _ _ => .refused rfl fun haccepts => ?_
    have hanswer : IsAnswered (isPostfix s fun f => (c f).value) :=
      isAnswered_isPostfix s (hpredicate haccepts.1) hbody (hstatements haccepts.2)
    obtain ⟨isShort, hok⟩ := hanswer
    rw [hshort] at hok
    cases hok
  | ok isShort =>
    cases isShort with
    | true => exact postfixConditional_decided hp hq
    | false => exact hplain

theorem whenClause_drafts {v : Value} (hstrict : strict = true → v.kind? = some .whenClause)
    (hconditions : v.kind?.any (·.has .conditions) = true →
      (c .conditions).value.isSequence = true ∧
        ∀ x ∈ (c .conditions).elements, (x.text .argument).Texts strict false)
    (hstatements : v.kind?.any (·.has .statements) = true →
      (clause (c .statements)).Drafts strict true) :
    (whenClause v c).Drafts strict false := by
  refine drafts_require (fun h => by rw [hstrict h]; rfl) fun hhas => ?_
  obtain ⟨hsequence, hitems⟩ := hconditions hhas
  have hlist : (arguments (c .conditions).elements none).Texts strict false :=
    arguments_texts (by simpa using hitems)
  obtain ⟨p, ht⟩ := hlist
  rw [FieldRendition.sequence_eq hsequence, pure_bind]
  by_cases hbody : v.kind?.any (·.has .statements) = true
  · obtain ⟨q, q', hd⟩ := hstatements hbody
    simp only [require_bind hbody]
    exact ⟨_, _, ht.bind fun conditions _ => hd.bind fun d hd => decided_pure
      (((decided_text _).append (decided_afterKeyword conditions)).append hd).loosen⟩
  · -- conditions without statements are written before they are refused
    have hlax : strict = false :=
      Bool.eq_false_iff.mpr fun h => hbody (by rw [hstrict h]; rfl)
    simp only [require_bind_refused hbody]
    exact ⟨_, .yes, ht.bind fun _ _ => Writer.decided_throw hlax _⟩

theorem caseOf_drafts
    (hpredicate : (c .predicate).value.isNull = false → (c .predicate).Expressible strict firm)
    (hsequence : (c .conditions).value.isSequence = true)
    (hconditions : ∀ x ∈ (c .conditions).elements, (x.write .whenClause).Drafts strict false)
    (halternate : ((c .alternate).write .elseBranch).Drafts strict false) :
    (caseOf c).Drafts strict true := by
  have hsubject : ((c .predicate).ifPresent
      (Draft.afterKeyword <$> (c .predicate).text .expression)).Drafts strict false := by
    refine drafts_ifPresent fun hnull => ?_
    obtain ⟨v, ht⟩ := (hpredicate hnull).text
    exact ⟨v, .yes, ht.map fun t _ => decided_afterKeyword t⟩
  obtain ⟨v, v', hs⟩ := hsubject
  obtain ⟨u, u', hb⟩ := drafts_mapM hconditions
  obtain ⟨w, w', ha⟩ := halternate
  rw [caseOf, FieldRendition.sequence_eq hsequence]
  exact ⟨_, _, hs.bind fun subject hs => hb.bind fun branches hb => ha.bind fun otherwise ha =>
    decided_pure ((((((decided_lit (by decide)).append hs).append decided_separator).append
      hb).append ha).append (decided_text _))⟩

theorem loop_drafts (keyword : String) (hpredicate : (c .predicate).Expressible strict firm)
    (hbody : (clause (c .statements)).Drafts strict true) :
    (loop keyword c).Drafts strict true := by
  obtain ⟨v, ht⟩ := hpredicate.text
  obtain ⟨u, u', hd⟩ := hbody
  exact ⟨_, _, (ht.withBraces true).bind fun t _ => hd.bind fun d hd => decided_pure
    ((((decided_text _).append (decided_afterKeyword t)).append hd).append (decided_text _))⟩

theorem loopVariable_drafts {v : Value} (hstrict : strict = true → v.canPlay .loopVariable = true)
    (hname : v.canPlay .loopVariable = true → (c .name).value.isName = true) :
    (loopVariable v c).Drafts strict false := by
  have hword (h : v.canPlay .loopVariable = true) :
      (Draft.word (c .name).value).Decided (.yes : Verdict strict) false :=
    (decided_name (hname h)).loosen
  cases v with
  | node kind field =>
    cases kind
    case localRead | localWrite =>
      exact ⟨.yes, .yes, (decided_declare_text (Value.isOptionalText_of_isName (hname rfl))).andThen
        fun _ _ => decided_pure (hword rfl)⟩
    case instanceRead | globalRead => exact drafts_pure (hword rfl)
    all_goals exact drafts_throw (Bool.eq_false_iff.mpr fun h => by cases hstrict h) _
  | _ => exact drafts_throw (Bool.eq_false_iff.mpr fun h => by cases hstrict h) _

theorem forLoop_drafts (hindex : ((c .index).write .loopVariable).Drafts strict false)
    (hcollection : (c .collection).Expressible strict firm)
    (hbody : (clause (c .statements)).Drafts strict true) : (forLoop c).Drafts strict true := by
  obtain ⟨v, v', hi⟩ := hindex
  obtain ⟨u, ht⟩ := hcollection.text
  obtain ⟨w, w', hd⟩ := hbody
  exact ⟨_, _, hi.bind fun index hi => (ht.withBraces true).bind fun collection _ =>
    hd.bind fun body hd => decided_pure ((((((decided_lit (by decide)).append hi).append
      (decided_text _)).append (decided_text collection)).append hd).append (decided_text _))⟩

theorem rescueClause_drafts {v : Value} (hstrict : strict = true →
      v.kind?.any (·.has .exceptions) = true ∧ (c .reference).value.isOptionalText = true)
    (h : v.kind?.any (·.has .exceptions) = true →
      ((c .exceptions).value.isSequence = true ∧
        ∀ x ∈ (c .exceptions).elements, (x.text .argument).Texts strict false) ∧
      (clause (c .statements)).Drafts strict true) :
    (rescueClause v c).Drafts strict false := by
  refine drafts_require (fun h => (hstrict h).1) fun hhas => ?_
  obtain ⟨⟨hsequence, hitems⟩, q, q', hbody⟩ := h hhas
  have hbound : ((c .reference).ifPresent do
      Writer.declare (c .reference).value
      return Draft.lit "=>" ++ Draft.word (c .reference).value).Drafts strict false := by
    refine drafts_ifPresent fun hnull => ?_
    have hname (h : strict = true) : (c .reference).value.isText = true :=
      (Bool.or_eq_true_iff.mp (hstrict h).2).resolve_left (by simp [hnull])
    have hword (h : strict = true) : (c .reference).value.isWord = true :=
      Bool.or_eq_true_iff.mpr (.inl (hname h))
    exact ⟨_, _, (decided_declare _ fun h => Value.isAnswered_checkKey (hstrict h).2).bind
      fun _ _ => decided_pure ((decided_text _).append (decided_word _ hword))⟩
  obtain ⟨p, p', hreference⟩ := hbound
  have hrest (d : Draft) (hd : d.Decided (.yes : Verdict strict) false) :
      (do
        let reference ← (c .reference).ifPresent do
          Writer.declare (c .reference).value
          return Draft.lit "=>" ++ Draft.word (c .reference).value
        return Draft.lit "rescue" ++ d ++ reference ++ (← clause (c .statements))).Decided
          (p.and q) (Draft.Decided (p'.and q') false) :=
    (hreference.bind fun reference hr => hbody.bind fun body hb => decided_pure
      (((((decided_text _).append hd).append hr).append hb).congr (by simp)).loosen).congr (by simp)
  dsimp only
  split
  · have hlist : (arguments (c .exceptions).elements none).Texts strict false :=
      arguments_texts (by simpa using hitems)
    obtain ⟨r, ht⟩ := hlist
    rw [FieldRendition.sequence_eq hsequence]
    exact ⟨_, _, ht.bind fun t _ => hrest _
      (((decided_text _).append (decided_text t)).congr (by simp))⟩
  · exact ⟨_, _, hrest _ decided_nil⟩

theorem ensureClause_drafts {v : Value}
    (hstrict : strict = true → v.kind?.any (·.has .statements) = true)
    (h : v.kind?.any (·.has .statements) = true → (clause (c .statements)).Drafts strict true) :
    (ensureClause v c).Drafts strict false := by
  refine drafts_require hstrict fun hhas => ?_
  obtain ⟨p, p', hd⟩ := h hhas
  exact ⟨_, _, hd.bind fun d hd => decided_pure ((decided_text _).append hd).loosen⟩

theorem beginBlock_drafts (hbody : (clause (c .statements)).Drafts strict true)
    (hsequence : (c .rescueClauses).value.isSequence = true)
    (hrescues : ∀ x ∈ (c .rescueClauses).elements, (x.write .rescueClause).Drafts strict false)
    (helse : ((c .elseClause).write .elseBranch).Drafts strict false)
    (hensure : (c .ensureClause).value.isNull = false →
      ((c .ensureClause).write .ensureClause).Drafts strict false) :
    (beginBlock c).Drafts strict true := by
  obtain ⟨p, p', hb⟩ := hbody
  obtain ⟨q, q', hr⟩ := drafts_mapM hrescues
  obtain ⟨r, r', he⟩ := helse
  obtain ⟨t, t', hn⟩ := drafts_ifPresent hensure
  rw [beginBlock, FieldRendition.sequence_eq hsequence]
  exact ⟨_, _, hb.bind fun body hb => hr.bind fun rescues hr => he.bind fun otherwise he =>
    hn.bind fun ensured hn => decided_pure ((((((decided_lit (by decide)).append hb).append
      hr).append he).append hn).append (decided_text _))⟩

theorem jump_drafts {keyword : String} (hkeyword : keyword ≠ "")
    (hsequence : (c .arguments).value.isSequence = true)
    (h : ∀ x ∈ (c .arguments).elements, (x.text .argument).Texts strict false) :
    (jump keyword c).Drafts strict true := by
  have hlist : (arguments (c .arguments).elements none).Texts strict false :=
    arguments_texts (by simpa using h)
  obtain ⟨v, ht⟩ := hlist
  rw [jump, FieldRendition.sequence_eq hsequence]
  split
  · exact ⟨_, _, (ht.withBraces true).bind fun t _ => decided_pure
      ((decided_lit hkeyword).append (decided_afterKeyword t))⟩
  · exact drafts_pure (decided_lit hkeyword)

end Rules
end TerseRuby
