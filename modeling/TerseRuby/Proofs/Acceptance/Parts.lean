import TerseRuby.Proofs.Acceptance.Verdict

/-!
# Verdicts on operands, arguments and literals

`Rendition.Judged strict r` says that for every role that the value of `r` may be asked to play, one
verdict decides all runs that write it.  In the strict sense a value may be asked to play only the
roles that it plays in a program; otherwise it may be asked to play almost any role, and the verdict
is then often to refuse.

For each rule of the renderer there is a lemma `…_drafts` or `…_texts`: if the parts that the rule
writes are decided, then so is what the rule writes.  Here are the rules for operands, arguments,
parameters and literals; the other rules follow in `Proofs/Acceptance/Rules.lean`.
-/

set_option autoImplicit false

namespace TerseRuby

open Writer (decided_pure decided_ask decided_read decided_get decided_declare_text drafts_pure
  drafts_throw drafts_mapM isDecided_mapM)
open Draft (decided_of decided_nil decided_lit decided_text decided_name decided_assigned
  decided_afterKeyword decided_word_of_isText)

variable {strict firm : Bool} {c : Field → FieldRendition}

/-! ## Renditions -/

namespace Value

/-- Whether a value may be asked to play a role. -/
def isAdmitted (strict : Bool) (v : Value) (role : Role) : Bool :=
  if strict then v.canPlay role else v.fits role

theorem isAdmitted_of {v : Value} {role : Role} (hplays : strict = true → v.canPlay role = true)
    (hfits : v.fits role = true) : v.isAdmitted strict role = true := by
  cases strict with
  | true => exact hplays rfl
  | false => exact hfits

theorem canPlay_of_isAdmitted {v : Value} {role : Role} (h : v.isAdmitted strict role = true)
    (hstrict : strict = true) : v.canPlay role = true := by
  rwa [isAdmitted, if_pos hstrict] at h

/-- Whether a value has a text that is not empty in some role, if it has one. -/
def isFirmAs (v : Value) : Role → Bool
  | .expression => !v.isKind .statements
  | _ => false

end Value

/-- For every role that a value may be asked to play, one verdict decides all runs. -/
structure Rendition.Judged (strict : Bool) (r : Rendition) : Prop where
  /-- How it is written. -/
  write : ∀ role, r.value.isAdmitted strict role = true →
    (r.write role).Drafts strict (r.value.isFirmAs role)
  /-- It is typed. -/
  typed : r.value.isTyped = true

/-- The same for what stands in a field. -/
structure FieldRendition.Judged (strict : Bool) (r : FieldRendition) : Prop where
  /-- The value. -/
  whole : r.toRendition.Judged strict
  /-- The elements that it is made of. -/
  elements : ∀ x ∈ r.elements, x.Judged strict
  /-- They are those of the value. -/
  values : r.elements.map Rendition.value = r.value.elements

/-- A value that is decided as an expression. -/
structure Rendition.Expressible (strict firm : Bool) (r : Rendition) : Prop where
  /-- Its text. -/
  text : (r.text .expression).Texts strict firm
  /-- It is typed. -/
  typed : r.value.isTyped = true

namespace Rendition

variable {r : Rendition}

theorem Judged.text (h : r.Judged strict) {role : Role}
    (hrole : r.value.isAdmitted strict role = true) : (r.text role).Texts strict false :=
  (h.write role hrole).built.loosen

theorem Judged.expressible (h : r.Judged strict)
    (hrole : r.value.isAdmitted strict .expression = true) :
    r.Expressible strict (!r.value.isKind .statements) :=
  ⟨(h.write .expression hrole).built, h.typed⟩

namespace Expressible

theorem loosen (h : r.Expressible strict firm) : r.Expressible strict false :=
  ⟨h.text.loosen, h.typed⟩

theorem operand (h : r.Expressible strict firm) (parent : Operator) (side : Side) :
    (r.operand parent side).Texts strict firm := by
  obtain ⟨v, htext⟩ := h.text
  obtain ⟨child, hchild⟩ := Value.isAnswered_operator? h.typed
  exact ⟨_, htext.bind fun t ht => decided_ask hchild (decided_pure (ht.grouped _))⟩

theorem memberOperand (h : r.Expressible strict firm) : r.memberOperand.Texts strict firm := by
  obtain ⟨v, htext⟩ := h.text
  obtain ⟨child, hchild⟩ := Value.isAnswered_operator? h.typed
  exact ⟨_, htext.bind fun t ht => decided_ask hchild (decided_pure (ht.grouped _))⟩

theorem assignedValue (h : r.Expressible strict firm) : r.assignedValue.Drafts strict true := by
  obtain ⟨v, htext⟩ := h.operand .assign .right
  exact ⟨_, _, htext.bind fun t _ => decided_pure (decided_assigned t)⟩

end Expressible
end Rendition

namespace FieldRendition

variable {r : FieldRendition} {α : Type}

theorem isDecided_ifPresent {Q : List α → Prop} (hnil : Q []) {w : Writer (List α)}
    (h : r.value.isNull = false → w.IsDecided strict Q) : (r.ifPresent w).IsDecided strict Q := by
  rw [ifPresent]
  cases hnull : r.value.isNull
  · exact h hnull
  · exact ⟨.yes, decided_pure hnil⟩

theorem texts_ifPresent {w : Writer Text} (h : r.value.isNull = false → w.Texts strict firm) :
    (r.ifPresent w).Texts strict false :=
  isDecided_ifPresent (Text.isFirm_false _) fun hnull => (h hnull).loosen

theorem drafts_ifPresent {w : Writer Draft} (h : r.value.isNull = false → w.Drafts strict false) :
    (r.ifPresent w).Drafts strict false := by
  rw [ifPresent]
  cases hnull : r.value.isNull
  · exact h hnull
  · exact drafts_pure decided_nil

theorem Judged.value_mem (h : r.Judged strict) {x : Rendition} (hx : x ∈ r.elements) :
    x.value ∈ r.value.elements := by
  rw [← h.values]
  exact List.mem_map_of_mem hx

theorem sequence_eq (h : r.value.isSequence = true) : r.sequence = pure r.elements := by
  obtain ⟨items, hitems⟩ := Value.exists_of_isSequence h
  rw [sequence, hitems]
  rfl

end FieldRendition

open FieldRendition (isDecided_ifPresent texts_ifPresent drafts_ifPresent)

namespace Rules

/-! ## Operands and operators -/

theorem symbol_ne_empty (op : Operator) : op.symbol ≠ "" := by
  cases op <;> decide

theorem logical_drafts (hleft : (c .left).Expressible strict firm)
    (hright : (c .right).Expressible strict firm) (op : Operator) (asWord : Bool) :
    (logical c op asWord).Drafts strict true := by
  obtain ⟨v, hl⟩ := hleft.operand op .left
  obtain ⟨u, hr⟩ := hright.operand op .right
  cases asWord with
  | true =>
    have hword : " " ++ op.symbol ++ " " ≠ "" := by simp
    exact ⟨_, _, hl.bind fun left _ => hr.bind fun right _ => decided_pure
      (((decided_text left).append (decided_lit hword)).append (decided_text right))⟩
  | false =>
    exact ⟨_, _, hl.bind fun left _ => hr.bind fun right _ => decided_pure
      (decided_of (Text.isFirm_joinInfix _ left (symbol_ne_empty op) right))⟩

theorem negation_drafts (h : (c .expression).Expressible strict firm) :
    (negation c).Drafts strict true := by
  obtain ⟨v, ht⟩ := h.operand .wordNot .right
  exact ⟨_, _, ht.bind fun t _ => decided_pure
    ((decided_lit (by decide)).append (decided_afterKeyword t))⟩

theorem range_drafts (hleft : (c .left).value.isNull = false → (c .left).Expressible strict firm)
    (hright : (c .right).value.isNull = false → (c .right).Expressible strict firm) :
    (range c).Drafts strict true := by
  rw [range]
  generalize (if (c .exclusive).value.isTrue then Operator.exclusiveRange else .inclusiveRange) = op
  obtain ⟨v, hl⟩ := texts_ifPresent fun hnull => (hleft hnull).operand op .left
  obtain ⟨u, hr⟩ := texts_ifPresent fun hnull => (hright hnull).operand op .right
  exact ⟨_, _, hl.bind fun left _ => hr.bind fun right _ => decided_pure
    ((((decided_text left).append (decided_lit (symbol_ne_empty op))).append
      (decided_text right)).grouped _)⟩

theorem assignment_drafts (hname : (c .name).value.isName = true)
    (hvalue : (c .value).Expressible strict firm) : (assignment c).Drafts strict true := by
  obtain ⟨v, u, hd⟩ := hvalue.assignedValue
  exact ⟨_, _, hd.bind fun d hd => decided_pure ((decided_name hname).append hd)⟩

theorem localAssignment_drafts (hname : (c .name).value.isName = true)
    (hvalue : (c .value).Expressible strict firm) : (localAssignment c).Drafts strict true := by
  obtain ⟨v, u, hd⟩ := assignment_drafts hname hvalue
  exact ⟨v, u, (decided_declare_text (Value.isOptionalText_of_isName hname)).andThen fun _ _ => hd⟩

theorem compoundAssignment_drafts (htarget : (c .target).Expressible strict true)
    (hoperator : (c .operator).value.isText = true) (hvalue : (c .value).Expressible strict firm) :
    (compoundAssignment c).Drafts strict true := by
  obtain ⟨v, ht⟩ := htarget.text
  obtain ⟨u, hv⟩ := hvalue.operand .assign .right
  have hrest : Writer.Drafts strict true (do
      let text ← (c .target).text .expression
      if text.isEmpty then throw .emptyText
      let gap := if text.endsWith Text.isNameMark then Draft.lit " " else []
      let value ← (c .value).operand .assign .right
      return Draft.of text ++ gap ++ Draft.word (c .operator).value ++ Draft.of value) := by
    refine ⟨v.and (u.and .yes), .yes, ht.bind fun text htext => ?_⟩
    have hgap : Draft.Decided (.yes : Verdict strict) false
        (if text.endsWith Text.isNameMark then Draft.lit " " else []) := by
      split
      · exact decided_text _
      · exact decided_nil
    rw [List.isEmpty_eq_false_iff.mpr (htext rfl)]
    refine hv.bind fun value _ => decided_pure ?_
    exact ((((decided_of htext).append hgap).append (decided_word_of_isText hoperator)).append
      (decided_text value)).congr (by simp)
  rw [compoundAssignment]
  dsimp only
  split
  · rename_i hlocal
    have hname : ((c .target).value.field .name).isOptionalText = true := by
      have htyped := htarget.typed
      obtain ⟨field, hfield⟩ := Value.exists_of_isKind hlocal
      rw [hfield] at htyped ⊢
      exact Value.isOptionalText_of_isName (Value.isTyped_position htyped .name rfl)
    obtain ⟨v, u, hd⟩ := hrest
    exact ⟨v, u, (decided_declare_text hname).andThen fun _ _ => hd⟩
  · exact hrest

theorem constantPath_drafts
    (hparent : (c .parent).value.isNull = false → (c .parent).Expressible strict firm)
    (hname : (c .name).value.isName = true) : (constantPath c).Drafts strict true := by
  obtain ⟨v, ht⟩ := texts_ifPresent fun hnull => (hparent hnull).memberOperand
  exact ⟨_, _, ht.bind fun t _ => decided_pure
    (((decided_text t).append (decided_lit (by decide))).append (decided_name hname))⟩

/-! ## Arguments, elements and parameters -/

theorem arguments_texts {items : List Rendition} {block : Option Rendition}
    (h : ∀ x ∈ items ++ block.toList, (x.text .argument).Texts strict false) :
    (arguments items block).Texts strict false := by
  obtain ⟨v, hall⟩ := isDecided_mapM h
  exact ⟨_, hall.bind fun texts _ => decided_pure (Text.isFirm_false _)⟩

theorem hashElements_texts {r : FieldRendition} (hsequence : r.value.isSequence = true)
    (h : ∀ x ∈ r.elements, (x.text .hashElement).Texts strict false) :
    (hashElements r).Texts strict false := by
  obtain ⟨v, hall⟩ := isDecided_mapM h
  rw [hashElements, FieldRendition.sequence_eq hsequence, pure_bind]
  exact ⟨_, hall.bind fun texts _ => decided_pure (Text.isFirm_false _)⟩

theorem spread_texts (stars : String) {r : FieldRendition}
    (h : r.value.isNull = false → r.Expressible strict firm) :
    (spread stars r).Texts strict false := by
  obtain ⟨v, ht⟩ := texts_ifPresent fun hnull => (h hnull).memberOperand
  exact ⟨_, ht.bind fun t _ => decided_pure (Text.isFirm_false _)⟩

theorem pair_texts (htyped : (c .key).value.isTyped = true)
    (hkey : ((c .key).text .argument).Texts strict false)
    (hvalue : ((c .value).text .argument).Texts strict false) :
    (pair c).Texts strict false := by
  obtain ⟨v, hk⟩ := hkey
  obtain ⟨u, hv⟩ := hvalue
  obtain ⟨label, hlabel⟩ := Value.isAnswered_keyLabel? htyped
  cases label with
  | some label =>
    exact ⟨_, decided_ask hlabel (hv.bind fun value _ => decided_pure (Text.isFirm_false _))⟩
  | none =>
    exact ⟨_, decided_ask hlabel (hk.bind fun key _ => hv.bind fun value _ =>
      decided_pure (Text.isFirm_false _))⟩

/-- What comes after a field that a value has. -/
theorem require_bind {β : Type} {v : Value} {f : Field} {k : Unit → Writer β}
    (h : v.kind?.any (·.has f) = true) : require v f >>= k = k () := by
  rw [require, if_pos h]
  rfl

/-- A value without the field that it needs is refused. -/
theorem require_bind_refused {β : Type} {v : Value} {f : Field} {k : Unit → Writer β}
    (h : ¬ v.kind?.any (·.has f) = true) :
    require v f >>= k = throw (.missingMember v.typeName f.spelling) := by
  rw [require, if_neg h]
  rfl

/-- A step after the demand for a field. -/
theorem texts_require {v : Value} {f : Field} {k : Unit → Writer Text}
    (hstrict : strict = true → v.kind?.any (·.has f) = true)
    (hk : v.kind?.any (·.has f) = true → (k ()).Texts strict firm) :
    (require v f >>= k).Texts strict firm := by
  by_cases hhas : v.kind?.any (·.has f) = true
  · rw [require_bind hhas]
    exact hk hhas
  · rw [require_bind_refused hhas]
    have hlax : strict = false := by simpa using fun h => hhas (hstrict h)
    exact ⟨.no hlax, Writer.decided_throw hlax _⟩

theorem drafts_require {v : Value} {f : Field} {k : Unit → Writer Draft}
    (hstrict : strict = true → v.kind?.any (·.has f) = true)
    (hk : v.kind?.any (·.has f) = true → (k ()).Drafts strict firm) :
    (require v f >>= k).Drafts strict firm := by
  by_cases hhas : v.kind?.any (·.has f) = true
  · rw [require_bind hhas]
    exact hk hhas
  · rw [require_bind_refused hhas]
    exact drafts_throw (by simpa using fun h => hhas (hstrict h)) _

theorem parameter_texts {v : Value} (hstrict : strict = true → v.kind?.any (·.has .name) = true)
    (hname : v.kind?.any (·.has .name) = true → (c .name).value.isOptionalText = true)
    (sign : String) : (parameter v c sign).Texts strict false := by
  refine texts_require hstrict fun hhas => ?_
  dsimp only
  split
  · exact ⟨_, decided_pure (Text.isFirm_false _)⟩
  · rename_i htrue
    refine ⟨.yes, (decided_declare_text (hname hhas)).andThen fun _ _ => ?_⟩
    have htext : (c .name).value.isText = true := by
      refine (Bool.or_eq_true_iff.mp (hname hhas)).resolve_left fun hnull => htrue ?_
      rw [Value.eq_null_of_isNull hnull]
      rfl
    obtain ⟨text, hvalue⟩ := Value.exists_of_isText htext
    rw [hvalue]
    exact decided_pure (Text.isFirm_false _)

theorem optionalParameter_texts {v : Value}
    (hstrict : strict = true →
      v.kind?.any (·.has .name) = true ∧ v.kind?.any (·.has .value) = true)
    (hname : v.kind?.any (·.has .name) = true → (c .name).value.isOptionalText = true)
    (hvalue : v.kind?.any (·.has .value) = true → ((c .value).text .argument).Texts strict false) :
    (optionalParameter v c).Texts strict false := by
  refine texts_require (fun h => (hstrict h).1) fun hhas => ?_
  obtain ⟨name, hshown⟩ := Value.isAnswered_shown (hname hhas)
  have hrest := texts_require (k := fun _ => do
      let value ← (c .value).text .argument
      return Text.lit (← (c .name).value.shown) ++ value.equals ++ value) (fun h => (hstrict h).2)
    fun hhas => by
      obtain ⟨v, ht⟩ := hvalue hhas
      exact ⟨_, ht.bind fun value _ =>
        decided_ask hshown (decided_pure (Text.isFirm_false _))⟩
  obtain ⟨v, hrest⟩ := hrest
  exact ⟨v, (decided_declare_text (hname hhas)).andThen fun _ _ => hrest⟩

theorem keywordParameter_texts {v : Value}
    (hstrict : strict = true →
      v.kind?.any (·.has .name) = true ∧ v.kind?.any (·.has .value) = true)
    (hname : v.kind?.any (·.has .name) = true → (c .name).value.isOptionalText = true)
    (hvalue : v.kind?.any (·.has .value) = true → (c .value).value.isNull = false →
      ((c .value).text .argument).Texts strict false) :
    (keywordParameter v c).Texts strict false := by
  refine texts_require (fun h => (hstrict h).1) fun hhas => ?_
  obtain ⟨name, hshown⟩ := Value.isAnswered_shown (hname hhas)
  have hrest := texts_require (k := fun _ =>
      let label := Text.lit name ++ Text.lit ":"
      if (c .value).value.isNull then return label
      else return Text.joinLabel label (← (c .value).text .argument)) (fun h => (hstrict h).2)
    fun hhas => by
      dsimp only
      split
      · exact ⟨_, decided_pure (Text.isFirm_false _)⟩
      · rename_i hnull
        obtain ⟨v, ht⟩ := hvalue hhas (by simpa using hnull)
        exact ⟨_, ht.bind fun value _ => decided_pure (Text.isFirm_false _)⟩
  obtain ⟨v, hrest⟩ := hrest
  exact ⟨v, (decided_declare_text (hname hhas)).andThen fun _ _ => decided_ask hshown hrest⟩

/-- The parameters of a group. -/
theorem parameterGroup_isDecided {r : FieldRendition} {role : Role}
    (hsequence : r.value.isSequence = true)
    (h : ∀ x ∈ r.elements, (x.text role).Texts strict false) :
    (parameterGroup r role).IsDecided strict fun _ => True := by
  rw [parameterGroup, FieldRendition.sequence_eq hsequence, pure_bind]
  exact isDecided_mapM h

theorem singleParameter_isDecided {r : FieldRendition} {sign : String}
    (h : r.value.isNull = false → (r.text (.parameter sign)).Texts strict false) :
    (singleParameter r sign).IsDecided strict fun _ => True := by
  refine isDecided_ifPresent trivial fun hnull => ?_
  obtain ⟨v, ht⟩ := h hnull
  exact ⟨_, ht.bind fun _ _ => decided_pure trivial⟩

theorem parameters_texts {v : Value} (hstrict : strict = true → v.kind? = some .parameters)
    (hgroup : v.kind? = some .parameters → ∀ f role, Kind.parameters.position f = .each role →
      Kind.parameters.owns f = true → (parameterGroup (c f) role).IsDecided strict fun _ => True)
    (hsingle : v.kind? = some .parameters → ∀ f sign,
      Kind.parameters.position f = .optional (.parameter sign) → Kind.parameters.owns f = true →
      (singleParameter (c f) sign).IsDecided strict fun _ => True) :
    (parameters v c).Texts strict false := by
  refine texts_require (fun h => by rw [hstrict h]; rfl) fun hhas => ?_
  obtain ⟨kind, hkind, hhas⟩ := (Option.any_eq_true _ _).mp hhas
  obtain rfl := Kind.eq_of_has_requireds hhas
  obtain ⟨_, hrequireds⟩ := hgroup hkind .requireds _ rfl rfl
  obtain ⟨_, hoptionals⟩ := hgroup hkind .optionals _ rfl rfl
  obtain ⟨_, hrest⟩ := hsingle hkind .rest _ rfl rfl
  obtain ⟨_, hposts⟩ := hgroup hkind .posts _ rfl rfl
  obtain ⟨_, hkeywords⟩ := hgroup hkind .keywords _ rfl rfl
  obtain ⟨_, hkeywordRest⟩ := hsingle hkind .keywordRest _ rfl rfl
  obtain ⟨_, hblock⟩ := hsingle hkind .block _ rfl rfl
  exact ⟨_, hrequireds.bind fun _ _ => hoptionals.bind fun _ _ => hrest.bind fun _ _ =>
    hposts.bind fun _ _ => hkeywords.bind fun _ _ => hkeywordRest.bind fun _ _ =>
      hblock.bind fun _ _ => decided_pure (Text.isFirm_false _)⟩

/-! ## Literals -/

open Literal (Segment)

theorem integer_ok {v : Value} (h : v.isWhole = true) (hshort : v.hasLong = false) :
    ∃ d, integer v = .ok d ∧ d.Decided (.yes : Verdict strict) true := by
  have hliteral (text : String) (hshown : v.shown = .ok text) (hne : text ≠ "") :
      ∃ d, integer v = .ok d ∧ d.Decided (.yes : Verdict strict) true := by
    refine ⟨Draft.lit text, ?_, decided_lit hne⟩
    rw [integer, hshown]
    rfl
  rcases v with (_ | truth | n | _ | _) | _ | _ | _
  case scalar.bool => cases truth <;> exact hliteral _ rfl (by decide)
  case scalar.int =>
    refine hliteral _ (if_neg (Bool.eq_false_iff.mp hshort)) fun hempty => ?_
    have hnil : Decimal.intText n = [] := by
      simpa [Value.display, Scalar.display] using congrArg String.toList hempty
    exact takeWhile_intText_ne_nil n (by simp [hnil])
  all_goals cases h

theorem float_ok {v : Value} (h : v.isDouble = true) :
    ∃ d, float v = .ok d ∧ d.Decided (.yes : Verdict strict) true := by
  rcases v with (_ | _ | _ | x | _) | _ | _ | _ | _
  case scalar.float =>
    exact ⟨_, rfl, decided_of (Text.isFirm_ofChars (text_ne_nil x))⟩
  all_goals cases h

theorem symbol_ok {v : Value} (h : v.isText = true) :
    ∃ d, symbol v = .ok d ∧ d.Decided (.yes : Verdict strict) true := by
  obtain ⟨text, rfl⟩ := Value.exists_of_isText h
  refine ⟨_, rfl, decided_of (Text.isFirm_ofChars ?_)⟩
  rw [Literal.symbol]
  split <;> simp

theorem string_ok {content : Value} (h : content.isText = true) :
    ∃ d, string content = .ok d ∧ d.Decided (.yes : Verdict strict) true := by
  obtain ⟨text, rfl⟩ := Value.exists_of_isText h
  exact ⟨_, rfl, decided_of (Text.isFirm_ofChars (literal_ne_nil (Content.literal_str text)))⟩

/-- Runs of characters and slots make segments. -/
theorem isAnswered_segmentsAfter {σ : Type} {parts : List (Literal.Part σ)}
    (h : ∀ part ∈ parts, (∃ text, part = .run text) ∨ ∃ content, part = .slot content)
    {p : Literal.Pending} (hp : p.foreign = none) :
    IsAnswered (Literal.segmentsAfter p parts) := by
  have hflush (p : Literal.Pending) (hp : p.foreign = none) :
      IsAnswered (p.flush : Except Fault (List (Segment σ))) := by
    rw [Literal.Pending.flush, hp]
    exact isAnswered_ok _
  induction parts generalizing p with
  | nil => exact hflush p hp
  | cons part parts ih =>
    obtain ⟨hpart, hparts⟩ := List.forall_mem_cons.mp h
    obtain ⟨text, rfl⟩ | ⟨content, rfl⟩ := hpart
    · exact ih hparts hp
    · rw [Literal.segmentsAfter]
      exact (hflush p hp).bind fun _ _ => (ih hparts rfl).bind fun _ _ => isAnswered_ok _

theorem spliceSegments_texts {segments : List (Segment Rendition)}
    (h : ∀ x ∈ Literal.slotsOf segments, (x.text .slot).Texts strict false) :
    (Literal.spliceSegments Text.ofChars (fun slot : Rendition => slot.text .slot)
      segments).Texts strict false := by
  induction segments with
  | nil => exact ⟨_, decided_pure (Text.isFirm_false _)⟩
  | cons segment rest ih =>
    cases segment with
    | run text =>
      obtain ⟨v, hrest⟩ := ih h
      exact ⟨_, hrest.bind fun _ _ => decided_pure (Text.isFirm_false _)⟩
    | slot content =>
      obtain ⟨hslot, hslots⟩ := List.forall_mem_cons.mp h
      obtain ⟨v, hslot⟩ := hslot
      obtain ⟨u, hrest⟩ := ih hslots
      exact ⟨_, hslot.bind fun _ _ => hrest.bind fun _ _ => decided_pure (Text.isFirm_false _)⟩

theorem interpolated_drafts (hsequence : (c .parts).value.isSequence = true)
    (hstrict : strict = true → IsAnswered
      (Literal.segments ((c .parts).elements.map (stringPart Rendition.value))))
    (h : ∀ x ∈ (c .parts).elements, x.value.isKind .embedded = true →
      (x.text .slot).Texts strict false) : (interpolated c).Drafts strict true := by
  rw [interpolated, FieldRendition.sequence_eq hsequence, pure_bind]
  dsimp only
  cases hsegments : Literal.segments ((c .parts).elements.map (stringPart Rendition.value)) with
  | error fault =>
    have hlax : strict = false := by
      rw [← Bool.not_eq_true]
      intro h
      obtain ⟨segments, hok⟩ := hstrict h
      rw [hsegments] at hok
      cases hok
    exact drafts_throw hlax fault
  | ok segments =>
    have hslots : ∀ x ∈ Literal.slotsOf segments, (x.text .slot).Texts strict false := by
      intro x hx
      rw [(slotsOf_segmentsAfter hsegments).1, List.mem_filter] at hx
      exact h x hx.1 hx.2
    obtain ⟨v, htext⟩ := spliceSegments_texts hslots
    have hquoted (t : Text) : (Text.ofChars ['"'] ++ t ++ Text.ofChars ['"']).IsFirm true :=
      ((Text.isFirm_ofChars (by simp)).append (Text.isFirm_false t)).append (Text.isFirm_false _)
    exact ⟨_, _, decided_ask rfl ((htext.bind fun t _ => decided_pure (hquoted t)).bind
      fun t ht => decided_pure (decided_of ht))⟩

theorem array_drafts (hsequence : (c .elements).value.isSequence = true)
    (h : ∀ x ∈ (c .elements).elements, (x.text .argument).Texts strict false) :
    (array c).Drafts strict true := by
  have hlist : (arguments (c .elements).elements none).Texts strict false :=
    arguments_texts (by simpa using h)
  obtain ⟨v, ht⟩ := hlist
  rw [array, FieldRendition.sequence_eq hsequence, pure_bind]
  exact ⟨_, _, ht.bind fun t _ => decided_pure
    (((decided_lit (by decide)).append (decided_text t)).append (decided_lit (by decide)))⟩

theorem hash_drafts (h : (hashElements (c .elements)).Texts strict false) :
    (hash c).Drafts strict true := by
  obtain ⟨v, ht⟩ := h
  exact ⟨_, _, ht.bind fun t _ => decided_pure
    (((decided_lit (by decide)).append (decided_text t)).append (decided_lit (by decide)))⟩

end Rules
end TerseRuby
