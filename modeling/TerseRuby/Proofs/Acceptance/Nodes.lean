import TerseRuby.Proofs.Acceptance.Rules

/-!
# Verdicts on every node in every role

Here the rules are put together: a value whose parts are decided is decided, in every role that it
may be asked to play (`Rules.write_judged`).

Two rules need to know more about their parts than that each of them is decided, because they write
the same parts in two ways.  A conditional walks over its parts before it writes them, and the walk
fails where the writing would fail too (`Value.isNode_of_succeeds`,
`Value.isNode_of_body_succeeds`).  And a call of output writes its argument as an expression, where
otherwise it would be an argument (`Value.write_argument`).
-/

set_option autoImplicit false

namespace TerseRuby

/-! ## Runs that succeed -/

/-- Some run of a writer succeeds. -/
def Writer.Succeeds {α : Type} (w : Writer α) : Prop :=
  ∃ s locals out, (w.run s).run locals = .ok out

namespace Writer

variable {strict : Bool} {α β : Type} {w : Writer α}

theorem Decided.succeeds {v : Verdict strict} {Q : α → Prop} (h : w.Decided v Q)
    (hv : v.accepts) : w.Succeeds := by
  rcases h (Setting.ofOptions .default) [] with ⟨hrun, _, _⟩ | ⟨_, hno⟩
  · exact ⟨_, _, _, hrun⟩
  · exact absurd hv hno

theorem Succeeds.of_bind {k : α → Writer β} (h : (w >>= k).Succeeds) :
    w.Succeeds ∧ ∃ a, (k a).Succeeds := by
  obtain ⟨s, locals, out, h⟩ := h
  rw [ReaderT.run_bind, StateT.run_bind] at h
  obtain ⟨first, hfirst, h⟩ := exists_of_bind_eq_ok h
  exact ⟨⟨s, locals, first, hfirst⟩, first.1, s, first.2, out, h⟩

theorem not_succeeds_throw (fault : Fault) : ¬ (throw fault : Writer α).Succeeds := by
  rintro ⟨s, locals, out, h⟩
  cases h

end Writer

/-- If a sequence was written, then so was each of its statements. -/
theorem Sequence.succeeds_of_write {file : Bool} {xs : List Statement}
    (h : (write file xs).Succeeds) {x : Statement} (hx : x ∈ xs) (hproper : IsProper x.value) :
    x.write.Succeeds := by
  have hfrom (ys : List Statement) (state : SeparatorState) (h : (writeFrom file state ys).Succeeds)
      (hx : x ∈ ys) : x.write.Succeeds := by
    induction ys generalizing state with
    | nil => exact absurd hx List.not_mem_nil
    | cons y ys ih =>
      obtain ⟨hhead, _, htail⟩ := h.of_bind
      rcases List.mem_cons.mp hx with rfl | hx
      · rwa [writeOne_eq hproper] at hhead
      · exact ih _ htail.of_bind.1 hx
  obtain ⟨_, s, h⟩ := h.of_bind
  refine hfrom _ _ h ((Rules.mem_kept_or s file Statement.value hx).resolve_right ?_)
  rw [hproper]
  exact Bool.false_ne_true

/-! ## What is written in two ways -/

namespace Value

/-- What is no node cannot be an expression. -/
theorem isNode_of_succeeds {v : Value} (h : (v.rendition.write .expression).Succeeds) :
    v.isNode = true := by
  cases v with
  | node kind field => rfl
  | _ => exact absurd h (Writer.not_succeeds_throw _)

/-- Nor can it be a statement. -/
theorem isNode_of_statement_succeeds {v : Value} (h : (v.rendition.write .statement).Succeeds) :
    v.isNode = true := by
  cases v with
  | node kind field => rfl
  | _ => exact absurd h (Writer.not_succeeds_throw _)

/-- The statements of a body that was written are nodes. -/
theorem isNode_of_body_succeeds {v : Value} (h : (v.rendition.write (.body false)).Succeeds)
    {vs : List Value} (hvs : v.bodyStatements = .ok vs) : ∀ w ∈ vs, w.isNode = true := by
  intro w hw
  cases hproper : w.inGroup Kind.isTrivia with
  | true =>
    cases w with
    | node kind field => rfl
    | _ => cases hproper
  | false =>
    refine isNode_of_statement_succeeds ?_
    unfold bodyStatements at hvs
    split at hvs
    · cases hvs
      cases hw
    · rename_i field
      rw [sequence] at hvs
      split at hvs
      · rename_i hcollection
        cases hvs
        have hwritten : (Rules.sequenceOf false (field .body).rendition).Succeeds := h
        rw [Rules.sequenceOf, FieldRendition.sequence, rendition_value, if_pos hcollection,
          pure_bind, rendition_elements_eq, List.map_map] at hwritten
        exact Sequence.succeeds_of_write hwritten
          (x := ⟨w, w.rendition.write .statement⟩)
          (List.mem_map.mpr ⟨w, hw, by simp⟩) hproper
      · cases hvs
    · rename_i hnull hstatements
      obtain rfl := List.mem_singleton.mp (Except.ok.inj hvs ▸ hw)
      have hwritten : (Sequence.write false [⟨w, w.rendition.write .statement⟩]).Succeeds := by
        cases w with
        | scalar s =>
          cases s with
          | null => exact absurd rfl hnull
          | _ => exact h
        | node kind field =>
          cases kind
          case statements => exact absurd rfl (hstatements field)
          all_goals exact h
        | _ => exact h
      exact Sequence.succeeds_of_write hwritten List.mem_cons_self hproper

/-- An argument that is a single value is written as the expression that it is, in parentheses if it
needs them. -/
theorem write_argument {v : Value} (h : v.inGroup Kind.isSpread = false) :
    v.rendition.write .argument = Draft.of <$> (do
      let text ← v.rendition.text .expression
      let child ← v.operator?
      return text.grouped (child.any fun child => child.needsParensAt Operator.argumentRank)) := by
  cases v with
  | node kind field =>
    cases kind
    case splat | blockArgument | keywordHash | doubleSplat => cases h
    all_goals rfl
  | _ => rfl

end Value

/-! ## The parts of a node -/

/-- All parts of a value are decided, and the value is typed, or grammatical and with a numeral if
the verdicts are strict. -/
structure PartsJudged (strict : Bool) (v : Value) (c : Field → FieldRendition) : Prop where
  /-- The values of the fields. -/
  value : ∀ f, (c f).value = v.field f
  /-- The renditions of the fields of a node. -/
  rendition : v.isNode = true → ∀ f, c f = (v.field f).rendition
  /-- The parts are decided. -/
  part : ∀ kind, v.kind? = some kind → ∀ f, kind.owns f = true → (c f).Judged strict
  /-- The value is typed. -/
  typed : v.isTyped = true
  /-- It can be told whether its text starts with a brace. -/
  brace : IsAnswered v.startsWithBrace
  /-- The node is grammatical. -/
  grammatical : strict = true → v.isGrammatical = true
  /-- If it is an integer, it can be written. -/
  numeral : strict = true → v.hasNumeral = true

namespace PartsJudged

variable {strict : Bool} {v : Value} {c : Field → FieldRendition} {kind : Kind} {role : Role}

theorem isTyped (h : PartsJudged strict v c) (hkind : v.kind? = some kind) (f : Field)
    (hown : kind.owns f = true) : (kind.position f).isTyped (c f).value = true := by
  obtain ⟨field, rfl⟩ := Value.exists_of_kind? hkind
  rw [h.value]
  exact Value.isTyped_position h.typed f hown

theorem admits (h : PartsJudged strict v c) (hstrict : strict = true)
    (hkind : v.kind? = some kind) (f : Field) (hown : kind.owns f = true) :
    (kind.position f).admits (c f).value = true := by
  obtain ⟨field, rfl⟩ := Value.exists_of_kind? hkind
  rw [h.value]
  exact Value.admits_position (h.grammatical hstrict) f hown

/-- A part may be asked to play the role of its position. -/
theorem isAdmitted (h : PartsJudged strict v c) (hkind : v.kind? = some kind) {f : Field}
    (hown : kind.owns f = true) (hposition : kind.position f = .one role ∨
      kind.position f = .optional role ∧ (c f).value.isNull = false)
    (hfits : ∀ w : Value, w.fits role = true) : (c f).value.isAdmitted strict role = true := by
  refine Value.isAdmitted_of (fun hstrict => ?_) (hfits _)
  have hadmits := h.admits hstrict hkind f hown
  rcases hposition with hposition | ⟨hposition, hnull⟩
  · rwa [hposition] at hadmits
  · rw [hposition, Position.admits, hnull] at hadmits
    exact hadmits

theorem write (h : PartsJudged strict v c) (hkind : v.kind? = some kind) {f : Field}
    (hown : kind.owns f = true) (hposition : kind.position f = .one role)
    (hfits : ∀ w : Value, w.fits role = true) : ((c f).write role).Drafts strict false :=
  ((h.part kind hkind f hown).whole.write role
    (h.isAdmitted hkind hown (.inl hposition) hfits)).loosen

theorem optionalWrite (h : PartsJudged strict v c) (hkind : v.kind? = some kind) {f : Field}
    (hown : kind.owns f = true) (hposition : kind.position f = .optional role)
    (hfits : ∀ w : Value, w.fits role = true) (hnull : (c f).value.isNull = false) :
    ((c f).write role).Drafts strict false :=
  ((h.part kind hkind f hown).whole.write role
    (h.isAdmitted hkind hown (.inr ⟨hposition, hnull⟩) hfits)).loosen

theorem expressible (h : PartsJudged strict v c) (hkind : v.kind? = some kind) {f : Field}
    (hown : kind.owns f = true) (hposition : kind.position f = .one .expression ∨
      kind.position f = .optional .expression ∧ (c f).value.isNull = false) :
    (c f).Expressible strict true := by
  have htyped := h.isTyped hkind f hown
  have hfirm : (c f).value.isKind .statements = false := by
    rcases hposition with hposition | ⟨hposition, _⟩ <;>
      · rw [hposition] at htyped
        simpa [Position.isTyped] using htyped
  have hexpressible := (h.part kind hkind f hown).whole.expressible
    (h.isAdmitted hkind hown hposition fun _ => rfl)
  rwa [hfirm] at hexpressible

theorem clause (h : PartsJudged strict v c) (hkind : v.kind? = some kind) {f : Field}
    (hown : kind.owns f = true) {file : Bool} (hposition : kind.position f = .one (.body file)) :
    (Sequence.clause (c f)).Drafts strict true := by
  have hbody : (c f).value.isAdmitted strict (.body file) = true :=
    h.isAdmitted hkind hown (.inl hposition) fun _ => rfl
  have hpart := (h.part kind hkind f hown).whole
  exact Sequence.clause_drafts (hpart.write (.body false) hbody) hpart.typed

/-- The statements of a clause, whatever its kind. -/
theorem clauseOf (h : PartsJudged strict v c) (hhas : v.kind?.any (·.has .statements) = true) :
    (Sequence.clause (c .statements)).Drafts strict true := by
  obtain ⟨kind, hkind, hhas⟩ := (Option.any_eq_true _ _).mp hhas
  exact h.clause hkind (Kind.owns_of_has (by decide) hhas) rfl

/-- The name of a node that has one is a text, or nothing. -/
theorem isOptionalText_name (h : PartsJudged strict v c)
    (hhas : v.kind?.any (·.has .name) = true) : (c .name).value.isOptionalText = true := by
  obtain ⟨kind, hkind, hhas⟩ := (Option.any_eq_true _ _).mp hhas
  have htyped := h.isTyped hkind .name (Kind.owns_of_has (by decide) hhas)
  rcases kind.position_name with hposition | hposition
  · rw [hposition] at htyped
    exact Value.isOptionalText_of_isName htyped
  · rwa [hposition] at htyped

/-- The default of a parameter, whatever its kind. -/
theorem default (h : PartsJudged strict v c) (hhas : v.kind?.any (·.has .value) = true)
    (hstrict : strict = true → (c .value).value.canPlay .argument = true) :
    ((c .value).text .argument).Texts strict false := by
  obtain ⟨kind, hkind, hhas⟩ := (Option.any_eq_true _ _).mp hhas
  exact (h.part kind hkind .value (Kind.owns_of_has (by decide) hhas)).whole.text
    (Value.isAdmitted_of hstrict rfl)

/-- The elements of a sequence may be asked to play the role of their position. -/
theorem each (h : PartsJudged strict v c) (hkind : v.kind? = some kind) {f : Field}
    (hown : kind.owns f = true) (hposition : kind.position f = .each role)
    (hfits : ∀ w : Value, w.fits role = true) : (c f).value.isSequence = true ∧
      ∀ x ∈ (c f).elements, x.value.isAdmitted strict role = true := by
  have htyped := h.isTyped hkind f hown
  rw [hposition] at htyped
  refine ⟨htyped, fun x hx => Value.isAdmitted_of (fun hstrict => ?_) (hfits _)⟩
  have hadmits := h.admits hstrict hkind f hown
  rw [hposition] at hadmits
  exact List.all_eq_true.mp (Bool.and_eq_true_iff.mp hadmits).2 _
    ((h.part kind hkind f hown).value_mem hx)

theorem eachWrite (h : PartsJudged strict v c) (hkind : v.kind? = some kind) {f : Field}
    (hown : kind.owns f = true) (hposition : kind.position f = .each role)
    (hfits : ∀ w : Value, w.fits role = true) : (c f).value.isSequence = true ∧
      ∀ x ∈ (c f).elements, (x.write role).Drafts strict false := by
  obtain ⟨hsequence, hadmitted⟩ := h.each hkind hown hposition hfits
  exact ⟨hsequence, fun x hx =>
    (((h.part kind hkind f hown).elements x hx).write role (hadmitted x hx)).loosen⟩

theorem eachText (h : PartsJudged strict v c) (hkind : v.kind? = some kind) {f : Field}
    (hown : kind.owns f = true) (hposition : kind.position f = .each role)
    (hfits : ∀ w : Value, w.fits role = true) : (c f).value.isSequence = true ∧
      ∀ x ∈ (c f).elements, (x.text role).Texts strict false := by
  obtain ⟨hsequence, hitems⟩ := h.eachWrite hkind hown hposition hfits
  exact ⟨hsequence, fun x hx => (hitems x hx).built⟩

/-- The statements of a sequence of statements. -/
theorem statements (h : PartsJudged strict v c) (hkind : v.kind? = some .statements) :
    (c .body).value.isSequence = true ∧ ∀ x ∈ (c .body).elements,
      Sequence.Statement.Judged strict ⟨x.value, x.write .statement⟩ := by
  have hpart := h.part _ hkind .body rfl
  refine ⟨h.isTyped hkind .body rfl, fun x hx => ⟨fun hproper => ?_, ?_⟩⟩
  · refine ((hpart.elements x hx).write .statement
      (Value.isAdmitted_of (fun hstrict => ?_) rfl)).loosen
    have hadmits : ((c .body).value.isSequence && (c .body).value.elements.all fun e =>
        e.inGroup Kind.isTrivia || e.canPlay .statement) = true := h.admits hstrict hkind .body rfl
    have hstatement := List.all_eq_true.mp (Bool.and_eq_true_iff.mp hadmits).2 _
      (hpart.value_mem hx)
    rwa [hproper] at hstatement
  · exact (hpart.elements x hx).typed

/-- The block of a call, which may be attached or passed as an argument. -/
theorem attachedBlock (h : PartsJudged strict v c) (hkind : v.kind? = some kind)
    (hown : kind.owns .block = true) : (Rules.attachedBlock (c .block)).Drafts strict false := by
  refine Rules.attachedBlock_drafts fun hblock => ?_
  exact ((h.part kind hkind .block hown).whole.write .block
    (Value.isAdmitted_of (fun _ => hblock) hblock)).loosen

theorem blockArgument (h : PartsJudged strict v c) (hkind : v.kind? = some kind)
    (hown : kind.owns .block = true) (hblock : (c .block).value.isKind .blockArgument = true) :
    ((c .block).text .argument).Texts strict false := by
  refine (h.part kind hkind .block hown).whole.text (Value.isAdmitted_of (fun _ => ?_) rfl)
  obtain ⟨field, hfield⟩ := Value.exists_of_isKind hblock
  rw [hfield]
  rfl

end PartsJudged

/-! ## Every node in every role -/

namespace Rules

open Writer (decided_pure decided_ask decided_read decided_get drafts_pure drafts_throw drafts_ask)
open Draft (decided_nil decided_lit decided_text decided_name)

variable {strict : Bool} {v : Value} {c : Field → FieldRendition}

theorem argumentsJudged (h : PartsJudged strict v c) (hkind : v.kind? = some .call) :
    ArgumentsJudged strict c :=
  ⟨(h.eachText hkind rfl rfl fun _ => rfl).2, h.blockArgument hkind rfl⟩

/-- A call whose parts are decided. -/
theorem call_judged (h : PartsJudged strict v c) (hkind : v.kind? = some .call) :
    (call c).Drafts strict true := by
  obtain ⟨hsequence, hitems⟩ := h.each (f := .arguments) hkind rfl rfl fun _ => rfl
  have hpart := h.part _ hkind .arguments rfl
  refine call_drafts (h.isTyped hkind .name rfl)
    (fun hnull => h.expressible hkind rfl (.inr ⟨rfl, hnull⟩)) hsequence
    (argumentsJudged h hkind) (h.attachedBlock hkind rfl) (fun hsingle x hx => ?_)
    fun hindex x hx => ?_
  · refine ((hpart.elements x hx).expressible (Value.isAdmitted_of (fun hstrict => ?_) rfl)).loosen
    exact Value.canPlay_expression_of_argument (Value.canPlay_of_isAdmitted (hitems x hx) hstrict)
      (CallShape.not_isSpread_of_isSingleValue hsingle (hpart.value_mem hx))
  · refine ((hpart.elements x (List.mem_of_getLast? hx)).expressible
      (Value.isAdmitted_of (fun hstrict => ?_) rfl)).loosen
    obtain ⟨field, rfl⟩ := Value.exists_of_kind? hkind
    have hassigns := (Bool.and_eq_true_iff.mp (h.grammatical hstrict)).2
    have hlast : (field .arguments).elements.getLast? = some x.value := by
      have hvalues : (c .arguments).elements.map Rendition.value = (field .arguments).elements := by
        rw [hpart.values, h.value]
        rfl
      rw [← hvalues, List.getLast?_map, hx]
      rfl
    have hname : (field .name).text? = some "[]=" := by
      rw [← CallShape.name_of_isIndexAssign hindex, h.value]
      rfl
    simpa [Value.assignsExpression, hname, hlast] using hassigns

theorem superCall_judged (h : PartsJudged strict v c) (hkind : v.kind? = some .superCall) :
    (superCall c).Drafts strict true := by
  have hpart := h.part _ hkind .arguments rfl
  have hargument (x : Rendition) (hx : x ∈ (c .arguments).elements) :
      (x.text .argument).Texts strict false := by
    refine (hpart.elements x hx).text (Value.isAdmitted_of (fun hstrict => ?_) rfl)
    have hmem := hpart.value_mem hx
    rcases Bool.or_eq_true_iff.mp (h.admits hstrict hkind .arguments rfl) with hnull | hadmits
    · rw [Value.eq_null_of_isNull hnull] at hmem
      cases hmem
    · exact List.all_eq_true.mp (Bool.and_eq_true_iff.mp hadmits).2 _ hmem
  exact superCall_drafts (Bool.or_eq_true_iff.mp (h.isTyped hkind .arguments rfl))
    ⟨hargument, h.blockArgument hkind rfl⟩ (h.attachedBlock hkind rfl)

/-- The runs and slots of a string of a program. -/
theorem isAnswered_segments (h : PartsJudged strict v c) (hkind : v.kind? = some .interpolated)
    (hstrict : strict = true) :
    IsAnswered (Literal.segments ((c .parts).elements.map (stringPart Rendition.value))) := by
  have hpart := h.part _ hkind .parts rfl
  have hadmits : ((c .parts).value.isSequence && (c .parts).value.elements.all fun e =>
      e.isKind .string || e.isKind .embedded) = true := h.admits hstrict hkind .parts rfl
  refine isAnswered_segmentsAfter (fun part hmem => ?_) rfl
  obtain ⟨x, hx, rfl⟩ := List.mem_map.mp hmem
  have hx' := List.all_eq_true.mp (Bool.and_eq_true_iff.mp hadmits).2 _ (hpart.value_mem hx)
  rcases Bool.or_eq_true_iff.mp hx' with hstring | hslot
  · obtain ⟨field, hfield⟩ := Value.exists_of_isKind hstring
    have htyped := (hpart.elements x hx).typed
    rw [hfield] at htyped
    obtain ⟨text, htext⟩ := Value.exists_of_isText (Value.isTyped_position htyped .content rfl)
    refine .inl ⟨text.toList, ?_⟩
    simp [stringPart, hfield, htext, Value.text?]
  · obtain ⟨field, hfield⟩ := Value.exists_of_isKind hslot
    refine .inr ⟨x, ?_⟩
    rw [stringPart, hfield]

theorem interpolated_judged (h : PartsJudged strict v c)
    (hkind : v.kind? = some .interpolated) : (interpolated c).Drafts strict true := by
  refine interpolated_drafts (h.isTyped hkind .parts rfl) (isAnswered_segments h hkind)
    fun x hx hslot => ?_
  exact ((h.part _ hkind .parts rfl).elements x hx).text
    (Value.isAdmitted_of (fun _ => hslot) hslot)

/-! ### Expressions -/

theorem drafts_of_ok {e : Except Fault Draft} {firm : Bool}
    (h : ∃ d, e = .ok d ∧ d.Decided (.yes : Verdict strict) firm) :
    (liftM e : Writer Draft).Drafts strict firm := by
  obtain ⟨d, rfl, hd⟩ := h
  exact drafts_pure hd

/-- An integer with too many digits is refused. -/
theorem integer_drafts {value : Value} (h : value.isWhole = true)
    (hstrict : strict = true → value.hasLong = false) :
    (liftM (integer value) : Writer Draft).Drafts strict true := by
  cases hlong : value.hasLong with
  | false => exact drafts_of_ok (integer_ok h hlong)
  | true =>
    have hlax : strict = false := by simpa [hlong] using hstrict
    have hshown : value.shown = .error .numberTooLong := by
      cases value with
      | scalar c => exact if_pos hlong
      | _ => cases h
    rw [integer, hshown]
    exact drafts_throw hlax _

/-- A node whose parts are decided is decided as an expression. -/
theorem expression_drafts (h : PartsJudged strict v c)
    (hstrict : strict = true → v.canPlay .expression = true) :
    (expression v c).Drafts strict (!v.isKind .statements) := by
  cases v with
  | node kind field =>
    have typed (f : Field) (hown : kind.owns f = true) :
        (kind.position f).isTyped (c f).value = true := h.isTyped rfl f hown
    have one (f : Field) (hown : kind.owns f = true)
        (hposition : kind.position f = .one .expression) : (c f).Expressible strict true :=
      h.expressible rfl hown (.inl hposition)
    have optional (f : Field) (hown : kind.owns f = true)
        (hposition : kind.position f = .optional .expression) (hnull : (c f).value.isNull = false) :
        (c f).Expressible strict true :=
      h.expressible rfl hown (.inr ⟨hposition, hnull⟩)
    have clause (f : Field) (hown : kind.owns f = true)
        (hposition : kind.position f = .one (.body false)) :
        (Sequence.clause (c f)).Drafts strict true := h.clause rfl hown hposition
    have arguments (f : Field) (hown : kind.owns f = true)
        (hposition : kind.position f = .each .argument) : (c f).value.isSequence = true ∧
          ∀ x ∈ (c f).elements, (x.text .argument).Texts strict false :=
      h.eachText rfl hown hposition fun _ => rfl
    cases kind
    case methodDef =>
      exact methodDef_drafts (typed .name rfl) (optional .receiver rfl rfl)
        (fun hnull => (h.optionalWrite rfl rfl rfl (fun _ => rfl) hnull).built)
        (clause .body rfl rfl)
    case classDef =>
      exact classDef_drafts (one .constantPath rfl rfl) (optional .superclass rfl rfl)
        (clause .body rfl rfl)
    case singletonClass =>
      exact singletonClass_drafts (one .expression rfl rfl) (clause .body rfl rfl)
    case moduleDef => exact moduleDef_drafts (one .constantPath rfl rfl) (clause .body rfl rfl)
    case ifThen =>
      obtain ⟨p, hp⟩ := (one .predicate rfl rfl).text
      obtain ⟨q, q', hq⟩ := clause .statements rfl rfl
      obtain ⟨r, r', hr⟩ := h.write rfl (f := .alternate) rfl rfl fun _ => rfl
      exact ⟨_, _, ifThen_decided hp hq hr⟩
    case unlessThen =>
      obtain ⟨p, hp⟩ := (one .predicate rfl rfl).text
      obtain ⟨q, q', hq⟩ := clause .statements rfl rfl
      obtain ⟨r, r', hr⟩ := h.write rfl (f := .alternate) rfl rfl fun _ => rfl
      exact ⟨_, _, unlessThen_decided hp hq hr⟩
    case caseOf =>
      obtain ⟨hsequence, hconditions⟩ := h.eachWrite rfl (f := .conditions) rfl rfl fun _ => rfl
      exact caseOf_drafts (optional .predicate rfl rfl) hsequence hconditions
        (h.write rfl rfl rfl fun _ => rfl)
    case whileLoop | untilLoop =>
      exact loop_drafts _ (one .predicate rfl rfl) (clause .statements rfl rfl)
    case forLoop =>
      exact forLoop_drafts (h.write rfl rfl rfl fun _ => rfl) (one .collection rfl rfl)
        (clause .statements rfl rfl)
    case beginBlock =>
      obtain ⟨hsequence, hrescues⟩ := h.eachWrite rfl (f := .rescueClauses) rfl rfl fun _ => rfl
      exact beginBlock_drafts (clause .statements rfl rfl) hsequence hrescues
        (h.write rfl rfl rfl fun _ => rfl) (h.optionalWrite rfl rfl rfl fun _ => rfl)
    case call => exact call_judged h rfl
    case logicalAnd | logicalOr =>
      have hlogical := logical_drafts (one .left rfl rfl) (one .right rfl rfl)
      simp only [expression, Value.kind?]
      split <;> exact hlogical _ _
    case logicalNot => exact negation_drafts (one .expression rfl rfl)
    case returnJump | breakJump | nextJump =>
      exact jump_drafts (by decide) (typed .arguments rfl) (arguments .arguments rfl rfl).2
    case yieldCall => exact yieldCall_drafts (typed .arguments rfl) (arguments .arguments rfl rfl).2
    case superCall => exact superCall_judged h rfl
    case integer =>
      refine integer_drafts (typed .value rfl) fun hs => ?_
      exact (h.value .value).symm ▸ Value.hasNumeral_position (h.numeral hs) rfl rfl
    case float => exact drafts_of_ok (float_ok (typed .value rfl))
    case symbol => exact drafts_of_ok (symbol_ok (typed .value rfl))
    case string => exact drafts_of_ok (string_ok (typed .content rfl))
    case interpolated => exact interpolated_judged h rfl
    case array => exact array_drafts (typed .elements rfl) (arguments .elements rfl rfl).2
    case hash =>
      obtain ⟨hsequence, helements⟩ := h.eachText rfl (f := .elements) rfl rfl fun _ => rfl
      exact hash_drafts (hashElements_texts hsequence helements)
    case range => exact range_drafts (optional .left rfl rfl) (optional .right rfl rfl)
    case parentheses =>
      obtain ⟨p, p', hbody⟩ := h.write rfl (f := .body) rfl rfl fun _ => rfl
      exact ⟨_, _, hbody.bind fun d hd => decided_pure hd.parenthesized⟩
    case statements => exact sequenceOf_drafts false (h.statements rfl).1 (h.statements rfl).2
    case localRead | instanceRead | globalRead | constantRead =>
      exact drafts_pure (decided_name (typed .name rfl))
    case localWrite => exact localAssignment_drafts (typed .name rfl) (one .value rfl rfl)
    case instanceWrite | globalWrite | constantWrite =>
      exact assignment_drafts (typed .name rfl) (one .value rfl rfl)
    case constantPath => exact constantPath_drafts (optional .parent rfl rfl) (typed .name rfl)
    case operatorWrite =>
      exact compoundAssignment_drafts (one .target rfl rfl) (typed .operator rfl)
        (one .value rfl rfl)
    case trueLiteral | falseLiteral | nilLiteral | selfLiteral =>
      exact drafts_pure (decided_lit (by decide))
    all_goals exact drafts_throw (Bool.eq_false_iff.mpr fun h => by cases hstrict h) _
  | _ => exact drafts_throw (Bool.eq_false_iff.mpr fun h => by cases hstrict h) _

/-! ### Statements -/

theorem plainStatement_drafts (h : PartsJudged strict v c)
    (hstrict : strict = true → v.canPlay .expression = true) :
    (plainStatement v c).Drafts strict false := by
  have hexpression := expression_drafts h hstrict
  obtain ⟨brace, hbrace⟩ := h.brace
  refine drafts_ask hbrace ?_
  split
  · obtain ⟨p, ht⟩ := hexpression.built
    exact ⟨_, _, ht.bind fun t _ => decided_pure (decided_text t).parenthesized.loosen⟩
  · exact hexpression.loosen

/-- A condition with an alternative is not written at the end. -/
theorem isPostfix_of_alternate (s : Setting) {field : Field → Value}
    (h : (field .alternate).isNull = false) : isPostfix s field = .ok false := by
  rw [isPostfix, h]
  rfl

/-- A conditional whose parts are decided. -/
theorem conditionalStatement_drafts {keyword : String} {kind : Kind} {field : Field → Value}
    (hcases : kind = .ifThen ∨ kind = .unlessThen)
    (h : PartsJudged strict (.node kind field) c) :
    (conditionalStatement keyword (.node kind field) c).Drafts strict false := by
  have hpredicate : (c .predicate).Expressible strict true := by
    rcases hcases with rfl | rfl <;> exact h.expressible rfl rfl (.inl rfl)
  have hbody : ((c .statements).write (.body false)).Drafts strict false := by
    rcases hcases with rfl | rfl <;> exact h.write rfl rfl rfl fun _ => rfl
  have htyped : (c .statements).value.isTyped = true := by
    refine (h.part kind rfl .statements ?_).whole.typed
    rcases hcases with rfl | rfl <;> rfl
  have hplain : (plainStatement (.node kind field) c).Drafts strict false :=
    plainStatement_drafts h fun _ => by rcases hcases with rfl | rfl <;> rfl
  cases halternate : (c .alternate).value.isNull
  · obtain ⟨p, p', hplain⟩ := hplain
    exact ⟨p, p', decided_read fun s => decided_ask (isPostfix_of_alternate s halternate) hplain⟩
  obtain ⟨p, hp⟩ := hpredicate.text
  obtain ⟨q, q', hq⟩ := hbody
  have hclause := Sequence.clause_decided hq htyped
  obtain ⟨vs, hvs⟩ := Value.isAnswered_bodyStatements htyped
  -- without an alternative, both forms have the verdicts on the condition and the body
  have hnothing : c .alternate = Value.null.rendition := by
    rw [h.rendition rfl, ← h.value, Value.eq_null_of_isNull halternate]
  have hform : (plainStatement (.node kind field) c).Decided (p.and q)
      (Draft.Decided q' false) := by
    have hnil (role : Role) (hrole : role = .alternate ∨ role = .elseBranch) :
        ((c .alternate).write role).Decided (.yes : Verdict strict)
          (Draft.Decided (.yes : Verdict strict) false) := by
      rw [hnothing]
      rcases hrole with rfl | rfl <;> exact decided_pure decided_nil
    rcases hcases with rfl | rfl
    · exact ((ifThen_decided hp hclause (hnil _ (.inl rfl))).mono fun d hd =>
        (hd.congr (by simp)).loosen).congr (by simp)
    · exact ((unlessThen_decided hp hclause (hnil _ (.inr rfl))).mono fun d hd =>
        (hd.congr (by simp)).loosen).congr (by simp)
  refine ⟨_, _, conditionalStatement_decided hp hq hform (fun haccepts => ?_) hvs
    fun haccepts => ?_⟩
  · have hwritten := (hp.succeeds haccepts).of_bind.1
    rw [h.rendition rfl] at hwritten ⊢
    exact Value.isNode_of_succeeds (by simpa using hwritten)
  · have hwritten := hq.succeeds haccepts
    rw [h.rendition rfl] at hwritten hvs
    exact Value.isNode_of_body_succeeds hwritten (by simpa using hvs)

/-- The argument of a call of output is no spread value. -/
theorem isOutputArgument_of_isOutputCall {s : Setting} {locals : Locals} {field : Field → Value}
    (h : isOutputCall s locals field = .ok true) {w : Value}
    (hw : (field .arguments).elements = [w]) : isOutputArgument w = true := by
  rw [isOutputCall] at h
  split at h
  · cases h
  obtain ⟨_, _, h⟩ := exists_of_bind_eq_ok h
  split at h
  · cases h
  split at h
  · cases h
  obtain ⟨_, _, h⟩ := exists_of_bind_eq_ok h
  split at h
  · cases h
  obtain ⟨first, hfirst, h⟩ := exists_of_bind_eq_ok h
  have hfirst : first = w := by
    cases harguments : field .arguments with
    | table entries =>
      rw [harguments] at hfirst
      cases hfirst
    | _ =>
      rw [harguments] at hfirst hw
      have hsame := Except.ok.inj hfirst
      rw [hw] at hsame
      exact hsame.symm
  rw [← hfirst]
  exact Except.ok.inj h

theorem not_isSpread_of_isOutputArgument {w : Value} (h : isOutputArgument w = true) :
    w.inGroup Kind.isSpread = false := by
  cases w with
  | node kind field =>
    cases kind
    case splat | blockArgument | keywordHash | doubleSplat => cases h
    all_goals rfl
  | _ => cases h

/-- A single value as an argument has the verdict on the expression that it is. -/
theorem argument_decided {w : Value} {p : Verdict strict} {firm : Bool}
    (hp : (w.rendition.text .expression).Decided p (Text.IsFirm firm)) (htyped : w.isTyped = true)
    (hspread : w.inGroup Kind.isSpread = false) :
    (w.rendition.text .argument).Decided p fun _ => True := by
  obtain ⟨child, hchild⟩ := Value.isAnswered_operator? htyped
  have hgrouped : Writer.Decided p (Text.IsFirm false) (do
      let text ← w.rendition.text .expression
      let child ← w.operator?
      return text.grouped (child.any fun child => child.needsParensAt Operator.argumentRank)) := by
    refine Writer.Decided.congr (v := p.and .yes) (hp.bind fun t _ => ?_) (by simp)
    exact decided_ask hchild (decided_pure (Text.isFirm_false _))
  have hdraft := hgrouped.map (R := Draft.Decided (.yes : Verdict strict) false) fun t ht =>
    Draft.decided_of ht
  rw [Rendition.text, Value.write_argument hspread]
  exact (hdraft.bind fun d hd => Writer.decided_liftM
    (Verdict.Decides.mono hd fun _ _ => trivial)).congr (by simp)

/-- A call without receiver and block, of a single value, has the verdict on that value. -/
theorem plainCall_decided {x : Rendition} {p : Verdict strict}
    (hname : (c .name).value.isName = true) (hreceiver : (c .receiver).value.isNull = true)
    (hblock : (c .block).value.isNull = true) (hsequence : (c .arguments).value.isSequence = true)
    (hitems : (c .arguments).elements = [x]) (htrue : (c .arguments).value.isTrue = true)
    (hp : (x.text .argument).Decided p fun _ => True) :
    (plainCall c).Decided p (Draft.Decided (.yes : Verdict strict) true) := by
  have hreceiver' : ((c .receiver).ifPresent do
      return Draft.of (← (c .receiver).memberOperand) ++ dot c) = pure [] := by
    rw [FieldRendition.ifPresent, if_pos hreceiver]
  have hnoBlock (kind : Kind) : (c .block).value.isKind kind = false := by
    rw [Value.eq_null_of_isNull hblock]
    rfl
  have hattached : attachedBlock (c .block) = pure [] := by
    rw [attachedBlock, hnoBlock]
    rfl
  have hlist : (argumentList c).Decided p (Draft.Decided (.yes : Verdict strict) false) := by
    have hone : Writer.Decided p (fun _ => True)
        ([x].mapM fun y : Rendition => y.text .argument) := by
      rw [List.mapM_cons, List.mapM_nil]
      exact (hp.bind fun t _ => decided_pure trivial).congr (by simp)
    rw [argumentList, htrue, FieldRendition.sequence_eq hsequence, hitems, blockArgument?, hnoBlock]
    exact ((hone.bind fun texts _ => decided_pure (Q := fun _ => True) trivial).bind fun t _ =>
      decided_pure (decided_text t).parenthesized.loosen).congr (by simp)
  rw [plainCall, hreceiver', hattached]
  exact (hlist.bind fun list hlist => decided_pure
    ((((decided_nil.append (decided_name hname)).append hlist).append decided_nil).congr
      (by simp))).congr (by simp)

/-- A call without receiver is written by its name. -/
theorem plainStatement_eq_plainCall {field : Field → Value}
    (hvalue : ∀ f, (c f).value = (Value.node .call field).field f)
    (hreceiver : (c .receiver).value.isNull = true) :
    plainStatement (.node .call field) c = plainCall c := by
  have hbrace : (Value.node .call field).startsWithBrace = .ok false := by
    rw [hvalue] at hreceiver
    exact if_pos hreceiver
  have hshape : CallShape.of (fun f => (c f).value) = .ok .plain := by
    rw [CallShape.of, if_pos hreceiver]
    rfl
  have hcall : call c = plainCall c := by
    rw [call, hshape]
    rfl
  rw [← hcall, plainStatement, hbrace]
  rfl

/-- A call that some run writes as one of output has the verdict on its argument, however it is
written. -/
theorem decided_of_isOutputCall {field : Field → Value}
    (h : PartsJudged strict (.node .call field) c) {s : Setting} {locals : Locals}
    (houtput : isOutputCall s locals (fun f => (c f).value) = .ok true) :
    ∃ (x : Rendition) (p : Verdict strict), (c .arguments).elements = [x] ∧
      (x.text .expression).Decided p (Text.IsFirm false) ∧
      (plainStatement (.node .call field) c).Decided p
        (Draft.Decided (.yes : Verdict strict) false) := by
  obtain ⟨hreceiver, hblock, _, w, hw⟩ := of_isOutputCall houtput
  have hspread := not_isSpread_of_isOutputArgument (isOutputArgument_of_isOutputCall houtput hw)
  have hsequence : (c .arguments).value.isSequence = true := h.isTyped rfl .arguments rfl
  have hitems : (c .arguments).elements = [w.rendition.toRendition] := by
    have hrendition : c .arguments = (field .arguments).rendition := h.rendition rfl .arguments
    rw [hrendition, Value.rendition_value] at hw
    rw [hrendition, Value.rendition_elements_eq, hw]
    rfl
  have hmem : w.rendition.toRendition ∈ (c .arguments).elements := by simp [hitems]
  have hadmitted : w.rendition.value.isAdmitted strict .expression = true := by
    refine Value.isAdmitted_of (fun hstrict => ?_) rfl
    have hargument := Value.canPlay_of_isAdmitted
      ((h.each rfl (f := .arguments) rfl rfl fun _ => rfl).2 _ hmem) hstrict
    rw [Value.rendition_value] at hargument ⊢
    exact Value.canPlay_expression_of_argument hargument hspread
  have hexpressible := ((h.part _ rfl .arguments rfl).elements _ hmem).expressible hadmitted
  have htyped : w.isTyped = true := by
    have htyped := hexpressible.typed
    rwa [Value.rendition_value] at htyped
  have htrue : (c .arguments).value.isTrue = true := by
    obtain ⟨items, hseq⟩ := Value.exists_of_isSequence hsequence
    rw [hseq] at hw ⊢
    obtain rfl : items = [w] := hw
    rfl
  obtain ⟨p, hp⟩ := hexpressible.loosen.text
  refine ⟨_, p, hitems, hp, ?_⟩
  rw [plainStatement_eq_plainCall h.value hreceiver]
  exact (plainCall_decided (h.isTyped rfl .name rfl) hreceiver hblock hsequence hitems htrue
    (argument_decided hp htyped hspread)).mono fun d hd => hd.loosen

/-- **Whether a call is written as one of output does not matter to the verdict.** -/
theorem callStatement_drafts {field : Field → Value}
    (h : PartsJudged strict (.node .call field) c) :
    (callStatement (.node .call field) c).Drafts strict false := by
  have hname : (c .name).value.isName = true := h.isTyped rfl .name rfl
  have hanswer (s : Setting) (locals : Locals) :
      IsAnswered (isOutputCall s locals fun f => (c f).value) :=
    isAnswered_isOutputCall s locals (Value.isText_of_isName hname) (h.isTyped rfl .arguments rfl)
  by_cases houtput : ∃ s locals, isOutputCall s locals (fun f => (c f).value) = .ok true
  · obtain ⟨_, _, houtput⟩ := houtput
    obtain ⟨x, p, hitems, hp, hplain⟩ := decided_of_isOutputCall h houtput
    refine ⟨p, .yes, decided_read fun s => decided_get fun locals => ?_⟩
    obtain ⟨isOutput, hanswer⟩ := hanswer s locals
    refine decided_ask hanswer ?_
    rw [hitems]
    cases isOutput with
    | true => exact (outputCall_decided hname hp).mono fun d hd => hd.loosen
    | false => exact hplain
  · obtain ⟨p, p', hplain⟩ := plainStatement_drafts h fun _ => rfl
    refine ⟨p, p', decided_read fun s => decided_get fun locals => ?_⟩
    obtain ⟨isOutput, hanswer⟩ := hanswer s locals
    cases isOutput with
    | true => exact absurd ⟨s, locals, hanswer⟩ houtput
    | false => exact decided_ask hanswer hplain

theorem statement_drafts (h : PartsJudged strict v c)
    (hstrict : strict = true → v.canPlay .statement = true) :
    (statement v c).Drafts strict false := by
  cases v with
  | node kind field =>
    cases kind
    case ifThen => exact conditionalStatement_drafts (.inl rfl) h
    case unlessThen => exact conditionalStatement_drafts (.inr rfl) h
    case call => exact callStatement_drafts h
    all_goals exact plainStatement_drafts h hstrict
  | _ => exact plainStatement_drafts h hstrict

theorem body_drafts (file : Bool) (h : PartsJudged strict v c)
    (hstrict : strict = true → v.canPlay (.body file) = true) :
    (body file v c).Drafts strict false := by
  rw [body]
  split
  · exact drafts_pure decided_nil
  rename_i hnull
  split
  · rename_i hkind
    obtain ⟨hsequence, hitems⟩ := h.statements (eq_of_beq hkind)
    exact sequenceOf_drafts file hsequence hitems
  · rename_i hkind
    refine Sequence.write_drafts file fun x hx => ?_
    obtain rfl := List.mem_singleton.mp hx
    refine ⟨fun hproper => statement_drafts h fun hs => ?_, h.typed⟩
    exact Value.canPlay_statement_of_body (hstrict hs) hnull hkind hproper

/-! ### Other roles -/

theorem hashElement_texts (h : PartsJudged strict v c)
    (hstrict : strict = true → v.canPlay .hashElement = true) :
    (hashElement v c).Texts strict false := by
  have hthrow (hno : v.canPlay .hashElement = false) (fault : Fault) :
      (throw fault : Writer Text).Texts strict false := by
    have hlax : strict = false := Bool.eq_false_iff.mpr fun hs => by
      rw [hstrict hs] at hno
      cases hno
    exact ⟨.no hlax, Writer.decided_throw hlax fault⟩
  cases v with
  | node kind field =>
    cases kind
    case pair =>
      exact pair_texts (h.part .pair rfl .key rfl).whole.typed
        (h.write rfl rfl rfl fun _ => rfl).built (h.write rfl rfl rfl fun _ => rfl).built
    case doubleSplat =>
      exact spread_texts _ fun hnull => h.expressible rfl rfl (.inr ⟨rfl, hnull⟩)
    all_goals exact hthrow rfl _
  | _ => exact hthrow rfl _

theorem argument_texts (h : PartsJudged strict v c)
    (hstrict : strict = true → v.canPlay .argument = true) :
    (argument v c (expression v c)).Texts strict false := by
  have hvalue (hspread : v.inGroup Kind.isSpread = false) : Writer.Texts strict false (do
      let text ← (expression v c).built
      let child ← v.operator?
      return text.grouped (child.any fun child => child.needsParensAt Operator.argumentRank)) := by
    obtain ⟨p, ht⟩ := (expression_drafts h fun hs =>
      Value.canPlay_expression_of_argument (hstrict hs) hspread).built
    obtain ⟨child, hchild⟩ := Value.isAnswered_operator? h.typed
    exact ⟨p.and .yes, ht.bind fun t _ => decided_ask hchild (decided_pure (Text.isFirm_false _))⟩
  cases v with
  | node kind field =>
    cases kind
    case splat | blockArgument =>
      exact spread_texts _ fun hnull => h.expressible rfl rfl (.inr ⟨rfl, hnull⟩)
    case doubleSplat => exact hashElement_texts h fun _ => rfl
    case keywordHash =>
      obtain ⟨hsequence, helements⟩ := h.eachText rfl (f := .elements) rfl rfl fun _ => rfl
      exact hashElements_texts hsequence helements
    all_goals exact hvalue rfl
  | _ => exact hvalue rfl

theorem alternate_drafts (h : PartsJudged strict v c)
    (hstrict : strict = true → v.canPlay .alternate = true) :
    (alternate v c).Drafts strict false := by
  rw [alternate]
  split
  · rename_i hkind
    have hkind := eq_of_beq hkind
    obtain ⟨p, hp⟩ := (h.expressible hkind (f := .predicate) rfl (.inl rfl)).text
    obtain ⟨q, q', hq⟩ := h.clause hkind (f := .statements) rfl rfl
    obtain ⟨r, r', hr⟩ := h.write hkind (f := .alternate) rfl rfl fun _ => rfl
    exact ⟨_, _, (conditional_decided hp hq hr).mono fun d hd => hd.loosen⟩
  · rename_i hkind
    refine elseBranch_drafts (fun hs => ?_) fun helse => h.clause (eq_of_beq helse) rfl rfl
    have hplays := (Bool.or_eq_true_iff.mp (hstrict hs)).resolve_right hkind
    exact Bool.or_eq_true_iff.mp hplays

theorem whenClause_judged (h : PartsJudged strict v c)
    (hstrict : strict = true → v.kind? = some .whenClause) :
    (whenClause v c).Drafts strict false := by
  refine whenClause_drafts hstrict (fun hhas => ?_) h.clauseOf
  obtain ⟨kind, hkind, hhas⟩ := (Option.any_eq_true _ _).mp hhas
  have hown := Kind.owns_of_has (by decide) hhas
  have hpart := h.part kind hkind .conditions hown
  refine ⟨?_, fun x hx => (hpart.elements x hx).text (Value.isAdmitted_of (fun hs => ?_) rfl)⟩
  · -- the conditions of a case are its branches, and they are a sequence too
    have htyped := h.isTyped hkind .conditions hown
    rw [Kind.position] at htyped
    split at htyped <;> exact htyped
  · have hplays := (h.each (hstrict hs) (f := .conditions) rfl rfl fun _ => rfl).2 x hx
    exact Value.canPlay_of_isAdmitted hplays hs

theorem rescueClause_judged (h : PartsJudged strict v c)
    (hstrict : strict = true → v.kind? = some .rescueClause) :
    (rescueClause v c).Drafts strict false := by
  refine rescueClause_drafts (fun hs => ?_) fun hhas => ?_
  · rw [hstrict hs]
    refine ⟨rfl, ?_⟩
    have hadmits := h.admits hs (hstrict hs) .reference rfl
    exact (Bool.or_eq_true_iff.mp hadmits).elim (fun hnull => Bool.or_eq_true_iff.mpr (.inl hnull))
      Value.isOptionalText_of_isName
  · obtain ⟨kind, hkind, hhas⟩ := (Option.any_eq_true _ _).mp hhas
    obtain rfl := Kind.eq_of_has_exceptions hhas
    exact ⟨h.eachText hkind rfl rfl fun _ => rfl, h.clause hkind rfl rfl⟩

theorem parameters_judged (h : PartsJudged strict v c)
    (hstrict : strict = true → v.kind? = some .parameters) :
    (parameters v c).Texts strict false := by
  refine parameters_texts hstrict (fun hkind f role hposition hown => ?_)
    fun hkind f sign hposition hown => ?_
  · have hfits (w : Value) : w.fits role = true := by
      cases f <;> cases hposition <;> rfl
    obtain ⟨hsequence, hitems⟩ := h.eachText hkind hown hposition hfits
    exact parameterGroup_isDecided hsequence hitems
  · exact singleParameter_isDecided fun hnull =>
      (h.optionalWrite hkind hown hposition (fun _ => rfl) hnull).built

theorem parameter_judged (h : PartsJudged strict v c) (sign : String)
    (hstrict : strict = true → v.canPlay (.parameter sign) = true) :
    (parameter v c sign).Texts strict false := by
  refine parameter_texts (fun hs => ?_) h.isOptionalText_name sign
  have hplays := hstrict hs
  cases v with
  | node kind field =>
    exact Kind.has_name_of_isParameter hplays
  | _ => cases hplays

/-- **A value whose parts are decided is decided**, in every role that it may be asked to play. -/
theorem write_judged (h : PartsJudged strict v c) :
    Rendition.Judged strict ⟨v, write v c⟩ := by
  refine ⟨fun role hrole => ?_, h.typed⟩
  have hstrict (hs : strict = true) : v.canPlay role = true := Value.canPlay_of_isAdmitted hrole hs
  cases role with
  | expression => exact expression_drafts h hstrict
  | statement => exact statement_drafts h hstrict
  | body file => exact body_drafts file h hstrict
  | argument => exact (argument_texts h hstrict).drafts
  | hashElement => exact (hashElement_texts h hstrict).drafts
  | whenClause => exact whenClause_judged h fun hs => eq_of_beq (hstrict hs)
  | rescueClause => exact rescueClause_judged h fun hs => eq_of_beq (hstrict hs)
  | elseBranch =>
    exact elseBranch_drafts (fun hs => Bool.or_eq_true_iff.mp (hstrict hs))
      fun hkind => h.clause (eq_of_beq hkind) rfl rfl
  | alternate => exact alternate_drafts h hstrict
  | ensureClause =>
    refine ensureClause_drafts (fun hs => ?_) h.clauseOf
    rw [eq_of_beq (hstrict hs)]
    rfl
  | parameters => exact (parameters_judged h fun hs => eq_of_beq (hstrict hs)).drafts
  | parameter sign => exact (parameter_judged h sign hstrict).drafts
  | optionalParameter =>
    refine (optionalParameter_texts (fun hs => ?_) h.isOptionalText_name fun hhas => ?_).drafts
    · rw [eq_of_beq (hstrict hs)]
      exact ⟨rfl, rfl⟩
    · exact h.default hhas fun hs => h.admits hs (eq_of_beq (hstrict hs)) .value rfl
  | keywordParameter =>
    refine (keywordParameter_texts (fun hs => ?_) h.isOptionalText_name fun hhas hnull => ?_).drafts
    · rw [eq_of_beq (hstrict hs)]
      exact ⟨rfl, rfl⟩
    · refine h.default hhas fun hs => ?_
      have hadmits := h.admits hs (eq_of_beq (hstrict hs)) .value rfl
      exact (Bool.or_eq_true_iff.mp hadmits).resolve_left (by simp [hnull])
  | slot =>
    have hkind : v.kind? = some .embedded := by
      cases strict <;> exact eq_of_beq hrole
    exact h.write hkind rfl rfl fun _ => rfl
  | loopVariable =>
    refine loopVariable_drafts hstrict fun hplays => ?_
    cases v with
    | node kind field =>
      cases kind
      case localRead | localWrite | instanceRead | globalRead => exact h.isTyped rfl .name rfl
      all_goals cases hplays
    | _ => cases hplays
  | block =>
    have hkind : v.kind? = some .block := by
      cases strict <;> exact eq_of_beq hrole
    refine (block_drafts (fun hnull => ?_) (h.write hkind rfl rfl fun _ => rfl) ?_).loosen
    · exact (h.optionalWrite hkind rfl rfl (fun _ => rfl) hnull).built
    · exact (h.part _ hkind .body rfl).whole.typed

end Rules
end TerseRuby
