import TerseRuby.Proofs.Tree.Shape

/-!
# Only the merged runs matter

Before anything is written, the parts of an interpolated string are settled: neighbouring runs are
merged, and what is neither a string nor a slot is refused.  This file says that the way a run was
cut up leaves no trace, and that a refusal comes before any slot is written.

* `Value.view` is all that can be seen of settled parts: the slots, and the text for every way to
  fill them.  `toOption_splice` says that splicing depends on nothing else, in any monad.
* `view_congr` and `view_append` carry the argument: pending runs count by their characters alone,
  and parts in front do not tell two rows of parts apart that look the same after every pending run.
* `segmentsAfter_refused` is about a part that is refused.  It is the first thing to be noticed,
  unless a string without a text stands before a slot, where it would have to be merged: that is
  `segmentsAfter_textless`.
* `splice_of_merged_runs` is the result for whole strings.

Two settlings of the same characters need not be equal: an empty string makes an empty segment
where there would be none, and moves the place that a failure reports.  Hence the view.
-/

set_option autoImplicit false

namespace TerseRuby
namespace Value

open Literal hiding splice

/-! ## What can be seen of settled parts -/

/-- What can be seen of settled parts: the slots, and the text once they are filled.  Of a failure
nothing is seen. -/
def view (settled : Except Fault (List (Segment Value))) :
    Option (List Value × (List (List Char) → List Char)) :=
  settled.toOption.map fun segments => (slotsOf segments, filled segments)

/-- Splicing settles all parts before it writes any slot. -/
theorem splice_eq {m : Type → Type} [Monad m] (write : Value → m (List Char))
    {field : Field → Value} {parts : List Value} (hfield : (field .parts).sequence = .ok parts) :
    splice write (.node .interpolated field) =
      (segments (parts.map (Rules.stringPart id))).map
        (Literal.splice id fun slot => write (slot.field .statements)) := by
  have hparts : ((Value.node .interpolated field).field .parts).sequence = .ok parts := hfield
  rw [splice, hparts]
  change (segments (parts.map (Rules.stringPart id)) >>= _) = _
  cases segments (parts.map (Rules.stringPart id)) <;> rfl

/-- Splicing is what can be seen of the settled parts, each slot written once and in order. -/
theorem toOption_splice {m : Type → Type} [Monad m] [LawfulMonad m]
    (write : Value → m (List Char)) {field : Field → Value} {parts : List Value}
    (hfield : (field .parts).sequence = .ok parts) :
    (splice write (.node .interpolated field)).toOption =
      (view (segments (parts.map (Rules.stringPart id)))).map fun seen =>
        (fun texts => '"' :: seen.2 texts ++ ['"']) <$>
          seen.1.mapM fun slot => write (slot.field .statements) := by
  rw [splice_eq write hfield, view]
  cases segments (parts.map (Rules.stringPart id)) with
  | error fault => rfl
  | ok settled =>
    refine congrArg some ?_
    rw [Literal.splice, spliceSegments_eq]
    simp

/-! ## Pending runs count by their characters

Pending runs are `IsRow` if they came up as runs do: without a run there are no characters. -/

/-- Pending runs as they come up. -/
def IsRow (p : Pending) : Prop := p.runs = 0 → p.text = []

theorem isRow_empty : IsRow .empty := fun _ => rfl

theorem isRow_add (p : Pending) (text : List Char) : IsRow (p.add text) :=
  fun h => absurd h (Nat.succ_ne_zero _)

theorem isRow_spoil (p : Pending) (typeName : String) : IsRow (p.spoil typeName) :=
  fun h => absurd h (Nat.succ_ne_zero _)

/-- What is seen of pending runs at the end of the parts. -/
theorem view_flush {p : Pending} (hp : IsRow p) :
    view p.flush = if p.foreign.isSome then none else some ([], fun _ => escape ['"'] p.text) := by
  cases hforeign : p.foreign with
  | some foreign => rw [Pending.flush, hforeign]; rfl
  | none =>
    have hpending : IsPending p := ⟨hforeign, hp⟩
    have hslots := slotsOf_pendingRun_append p []
    have htext := hpending.filled_append []
    simp only [List.append_nil, filled] at hslots htext
    rw [hpending.flush]
    exact congrArg some (Prod.ext hslots (funext htext))

/-- What is seen of pending runs before a slot. -/
theorem view_slot {p : Pending} (hp : IsRow p) (slot : Value) (parts : List (Literal.Part Value)) :
    view (segmentsAfter p (.slot slot :: parts)) =
      if p.foreign.isSome then none
      else (view (segmentsAfter .empty parts)).map fun seen =>
        (slot :: seen.1, fun texts => escape ['#'] p.text ++
          '#' :: '\x7b' :: (texts.headD [] ++ '\x7d' :: seen.2 texts.tail)) := by
  rw [segmentsAfter]
  cases hforeign : p.foreign with
  | some foreign => rw [Pending.flush, hforeign]; rfl
  | none =>
    have hpending : IsPending p := ⟨hforeign, hp⟩
    rw [hpending.flush]
    cases segmentsAfter .empty parts with
    | error fault => rfl
    | ok rest =>
      refine congrArg some (Prod.ext ?_ (funext fun texts => ?_))
      · exact slotsOf_pendingRun_append p (.slot slot :: rest)
      · exact hpending.filled_append (.slot slot :: rest) texts

/-- Pending runs with the same characters, of which both or neither can be merged, look the same
before any parts. -/
theorem view_congr {p p' : Pending} (hp : IsRow p) (hp' : IsRow p') (htext : p.text = p'.text)
    (hforeign : p.foreign.isSome = p'.foreign.isSome) (parts : List (Literal.Part Value)) :
    view (segmentsAfter p parts) = view (segmentsAfter p' parts) := by
  induction parts generalizing p p' with
  | nil => rw [segmentsAfter, segmentsAfter, view_flush hp, view_flush hp', htext, hforeign]
  | cons part parts ih =>
    cases part with
    | run text =>
      exact ih (isRow_add p text) (isRow_add p' text) (congrArg (· ++ text) htext) hforeign
    | foreign typeName =>
      exact ih (isRow_spoil p typeName) (isRow_spoil p' typeName) htext (by simp [Pending.spoil])
    | slot content => rw [view_slot hp, view_slot hp', htext, hforeign]
    | other kind => rfl

/-- Parts that look the same after any pending runs still do so with others in front. -/
theorem view_append {parts parts' : List (Literal.Part Value)}
    (h : ∀ p, IsRow p → view (segmentsAfter p parts) = view (segmentsAfter p parts'))
    (before : List (Literal.Part Value)) {p : Pending} (hp : IsRow p) :
    view (segmentsAfter p (before ++ parts)) = view (segmentsAfter p (before ++ parts')) := by
  induction before generalizing p with
  | nil => exact h p hp
  | cons part before ih =>
    cases part with
    | run text => exact ih (isRow_add p text)
    | foreign typeName => exact ih (isRow_spoil p typeName)
    | slot content =>
      rw [List.cons_append, List.cons_append, view_slot hp, view_slot hp, ih isRow_empty]
    | other kind => rfl

/-- Runs are added to those that are pending. -/
theorem segmentsAfter_runs (texts : List (List Char)) (after : List (Literal.Part Value))
    (p : Pending) :
    segmentsAfter p (texts.map .run ++ after) =
      segmentsAfter ⟨p.text ++ texts.flatten, p.runs + texts.length, p.foreign⟩ after := by
  induction texts generalizing p with
  | nil => simp
  | cons text texts ih =>
    rw [List.map_cons, List.cons_append, segmentsAfter, ih]
    simp [Pending.add, Nat.add_comm, Nat.add_left_comm]

/-- **How a run is cut up leaves no trace.** -/
theorem view_recut (before after : List (Literal.Part Value)) {texts texts' : List (List Char)}
    (h : texts.flatten = texts'.flatten) :
    view (segments (before ++ (texts.map .run ++ after))) =
      view (segments (before ++ (texts'.map .run ++ after))) := by
  refine view_append (fun p hp => ?_) before isRow_empty
  have hrow (texts : List (List Char)) :
      IsRow ⟨p.text ++ texts.flatten, p.runs + texts.length, p.foreign⟩ := by
    intro hruns
    obtain ⟨hruns, hlength⟩ := Nat.add_eq_zero_iff.mp hruns
    rw [List.length_eq_zero_iff.mp hlength, List.flatten_nil, List.append_nil]
    exact hp hruns
  rw [segmentsAfter_runs, segmentsAfter_runs]
  exact view_congr (hrow texts) (hrow texts') (congrArg (p.text ++ ·) h) rfl after

/-! ## Refused parts -/

/-- The text of a string, if a value is a string that has one. -/
def runText? : Value → Option (List Char)
  | .node .string field => (field .content).text?.map String.toList
  | _ => none

/-- Whether a value may stand in an interpolated string: a string, with a text or not, or a slot. -/
def isStringOrSlot (v : Value) : Bool := v.isKind .string || v.isKind .embedded

/-- Whether a value is a string without a text. -/
def isTextless (v : Value) : Bool := v.isKind .string && (runText? v).isNone

/-- Whatever has to be merged before a slot can be: no string without a text stands there. -/
def IsMergeable (parts : List Value) : Prop :=
  parts.Pairwise fun run slot => run.isTextless = true → slot.isKind .embedded = false

theorem stringPart_of_refused {part : Value} (h : part.isStringOrSlot = false) :
    Rules.stringPart id part = .other part.typeName := by
  rw [Rules.stringPart]
  split
  · rename_i hpart
    rw [id] at hpart
    rw [hpart] at h
    cases h
  · rename_i hpart
    rw [id] at hpart
    rw [hpart] at h
    cases h
  · rfl

theorem stringPart_of_runText? {part : Value} {text : List Char} (h : runText? part = some text) :
    Rules.stringPart id part = .run text := by
  rw [runText?.eq_def] at h
  split at h
  · rename_i field
    obtain ⟨s, hs, rfl⟩ := Option.map_eq_some_iff.mp h
    simp [Rules.stringPart, hs]
  · cases h

/-- What may stand in a string: a run of characters, a string without a text, a slot. -/
theorem stringPart_of_isStringOrSlot {part : Value} (h : part.isStringOrSlot = true) :
    (part.isKind .embedded = false ∧ part.isTextless = false ∧
        ∃ text, Rules.stringPart id part = .run text) ∨
      (part.isKind .embedded = false ∧ part.isTextless = true ∧
        ∃ typeName, Rules.stringPart id part = .foreign typeName) ∨
      (part.isKind .embedded = true ∧ Rules.stringPart id part = .slot part) := by
  rw [isStringOrSlot, Bool.or_eq_true] at h
  obtain hkind | hkind := h
  · have hstring := hkind
    obtain ⟨field, rfl⟩ := exists_of_isKind hkind
    rw [isTextless, hstring, Bool.true_and]
    cases htext : runText? (.node .string field) with
    | some text => exact Or.inl ⟨rfl, rfl, text, stringPart_of_runText? htext⟩
    | none =>
      rw [runText?, Option.map_eq_none_iff] at htext
      refine Or.inr (Or.inl ⟨rfl, rfl, (field .content).typeName, ?_⟩)
      simp [Rules.stringPart, htext]
  · obtain ⟨field, rfl⟩ := exists_of_isKind hkind
    exact Or.inr (Or.inr ⟨hkind, rfl⟩)

/-- **A refused part is what is noticed first**, if what comes before it can be merged where that
is needed. -/
theorem segmentsAfter_refused {before : List Value}
    (hbefore : ∀ part ∈ before, part.isStringOrSlot = true) (hmerge : IsMergeable before)
    {part : Value} (hpart : part.isStringOrSlot = false) (after : List Value) {p : Pending}
    (hp : p.foreign = none ∨ ∀ slot ∈ before, slot.isKind .embedded = false) :
    segmentsAfter p ((before ++ part :: after).map (Rules.stringPart id)) =
      .error (.unsupported part.typeName (some .notStringPart)) := by
  induction before generalizing p with
  | nil => rw [List.nil_append, List.map_cons, stringPart_of_refused hpart]; rfl
  | cons first before ih =>
    obtain ⟨hfirst, hothers⟩ := List.forall_mem_cons.mp hbefore
    obtain ⟨hslots, hmerge⟩ := List.pairwise_cons.mp hmerge
    rw [List.cons_append, List.map_cons]
    obtain ⟨-, -, text, hrun⟩ | ⟨-, htextless, typeName, hrun⟩ | ⟨hkind, hslot⟩ :=
      stringPart_of_isStringOrSlot hfirst
    · rw [hrun]
      exact ih hothers hmerge (hp.imp id fun h => (List.forall_mem_cons.mp h).2)
    · -- a string without a text, so that no slot can come after it
      rw [hrun]
      exact ih hothers hmerge (Or.inr fun slot hslot => hslots slot hslot htextless)
    · have hforeign : p.foreign = none := by
        refine hp.resolve_right fun h => ?_
        rw [h first (List.mem_cons_self ..)] at hkind
        cases hkind
      rw [hslot, segmentsAfter, Pending.flush, hforeign, ih hothers hmerge (Or.inl rfl)]
      rfl

/-- **A string without a text is noticed at the next slot**, whatever comes after that: one that is
pending already, or one among these parts. -/
theorem segmentsAfter_textless {before : List Value}
    (hbefore : ∀ part ∈ before, part.isStringOrSlot = true) (after : List (Literal.Part Value))
    {p : Pending}
    (h : ¬IsMergeable before ∨
      (p.foreign.isSome = true ∧ ∃ slot ∈ before, slot.isKind .embedded = true)) :
    ∃ typeName place, segmentsAfter p (before.map (Rules.stringPart id) ++ after) =
      .error (.notText typeName place 0) := by
  induction before generalizing p with
  | nil =>
    obtain h | ⟨-, slot, hslot, -⟩ := h
    · exact absurd List.Pairwise.nil h
    · cases hslot
  | cons first before ih =>
    obtain ⟨hfirst, hothers⟩ := List.forall_mem_cons.mp hbefore
    rw [List.map_cons, List.cons_append]
    obtain ⟨hkind, htextless, text, hrun⟩ | ⟨hkind, -, typeName, hrun⟩ | ⟨hkind, hslot⟩ :=
      stringPart_of_isStringOrSlot hfirst
    · rw [hrun]
      refine ih (p := p.add text) hothers ?_
      obtain h | ⟨hforeign, hslots⟩ := h
      · refine Or.inl fun hmerge => h (List.pairwise_cons.mpr ⟨fun slot _ hfirst => ?_, hmerge⟩)
        rw [htextless] at hfirst
        cases hfirst
      · refine Or.inr ⟨hforeign, ((List.exists_mem_cons_iff ..).mp hslots).resolve_left ?_⟩
        rw [hkind]
        exact Bool.false_ne_true
    · -- what is pending has no text from here on, so that any slot will do
      rw [hrun]
      refine ih (p := p.spoil typeName) hothers ?_
      by_cases hslots : ∃ slot ∈ before, slot.isKind .embedded = true
      · exact Or.inr ⟨by simp [Pending.spoil], hslots⟩
      · have hnone : ∀ slot ∈ before, slot.isKind .embedded = false := fun slot hslot =>
          Bool.eq_false_iff.mpr fun h => hslots ⟨slot, hslot, h⟩
        obtain h | ⟨-, hfirst⟩ := h
        · exact Or.inl fun hmerge =>
            h (List.pairwise_cons.mpr ⟨fun slot hslot _ => hnone slot hslot, hmerge⟩)
        · obtain hfirst | hfirst := (List.exists_mem_cons_iff ..).mp hfirst
          · rw [hkind] at hfirst
            cases hfirst
          · exact absurd hfirst hslots
    · rw [hslot, segmentsAfter]
      cases hforeign : p.foreign with
      | some foreign => exact ⟨foreign.1, foreign.2, by rw [Pending.flush, hforeign]; rfl⟩
      | none =>
        have hmerge : ¬IsMergeable before := by
          obtain h | ⟨hforeign', -⟩ := h
          · refine fun hmerge => h (List.pairwise_cons.mpr ⟨fun slot _ hfirst => ?_, hmerge⟩)
            obtain ⟨field, rfl⟩ := exists_of_isKind hkind
            cases hfirst
          · rw [hforeign] at hforeign'
            cases hforeign'
        obtain ⟨typeName, place, hrest⟩ := ih (p := .empty) hothers (Or.inl hmerge)
        exact ⟨typeName, place, by rw [Pending.flush, hforeign, hrest]; rfl⟩

/-! ## Whole strings -/

/-- Strings with these characters, put together. -/
def HaveText (runs : List Value) (text : List Char) : Prop :=
  ∃ texts : List (List Char), runs.map runText? = texts.map some ∧ texts.flatten = text

theorem map_stringPart_of_runText? {runs : List Value} {texts : List (List Char)}
    (h : runs.map runText? = texts.map some) :
    runs.map (Rules.stringPart id) = texts.map .run := by
  induction runs generalizing texts with
  | nil =>
    rw [List.map_nil, eq_comm, List.map_eq_nil_iff] at h
    rw [h]
    rfl
  | cons run runs ih =>
    obtain ⟨text, texts, rfl⟩ : ∃ text rest, texts = text :: rest := by
      cases texts with
      | nil => cases h
      | cons text rest => exact ⟨text, rest, rfl⟩
    obtain ⟨hrun, hruns⟩ := List.cons.inj h
    rw [List.map_cons, List.map_cons, stringPart_of_runText? hrun, ih hruns]

variable {m : Type → Type} [Monad m] [LawfulMonad m] (write : Value → m (List Char))

/-- Two interpolated strings that differ in how one run is cut up are spliced alike. -/
theorem toOption_splice_recut {field field' : Field → Value} {before runs runs' after : List Value}
    {text : List Char} (hfield : (field .parts).sequence = .ok (before ++ (runs ++ after)))
    (hfield' : (field' .parts).sequence = .ok (before ++ (runs' ++ after)))
    (hruns : HaveText runs text) (hruns' : HaveText runs' text) :
    (splice write (.node .interpolated field)).toOption =
      (splice write (.node .interpolated field')).toOption := by
  obtain ⟨texts, htexts, hflatten⟩ := hruns
  obtain ⟨texts', htexts', hflatten'⟩ := hruns'
  rw [toOption_splice write hfield, toOption_splice write hfield']
  simp only [List.map_append, map_stringPart_of_runText? htexts, map_stringPart_of_runText? htexts']
  rw [view_recut _ _ (hflatten.trans hflatten'.symm)]

/-- What is not refused consists of strings and slots, and is spliced by writing every slot once, in
order. -/
theorem splice_eq_of_ok {field : Field → Value} {parts : List Value}
    (hfield : (field .parts).sequence = .ok parts) {action : m (List Char)}
    (h : splice write (.node .interpolated field) = .ok action) :
    (∀ part ∈ parts, part.isStringOrSlot = true) ∧
      ∃ text : List (List Char) → List Char,
        action = text <$> (slotStatements parts).mapM write := by
  have hview := toOption_splice write hfield
  rw [h] at hview
  cases hsegments : segments (parts.map (Rules.stringPart id)) with
  | error fault => rw [hsegments] at hview; cases hview
  | ok settled =>
    obtain ⟨hslots, hkinds⟩ := Rules.slotsOf_segmentsAfter hsegments
    refine ⟨fun part hpart => ?_, fun texts => '"' :: filled settled texts ++ ['"'], ?_⟩
    · rw [isStringOrSlot, Bool.or_eq_true]
      exact hkinds part hpart
    · rw [hsegments] at hview
      refine (Option.some.inj hview).trans ?_
      change _ <$> (slotsOf settled).mapM _ = _
      rw [hslots, slotStatements, List.mapM_map]
      rfl

/-- Strings with a text and slots are not refused. -/
theorem exists_splice_eq_ok {field : Field → Value} {parts : List Value}
    (hfield : (field .parts).sequence = .ok parts) (hparts : ∀ part ∈ parts, IsStringPart part) :
    ∃ action, splice write (.node .interpolated field) = .ok action := by
  obtain ⟨settled, hsettled, -⟩ := exists_segmentsAfter (p := .empty) hparts ⟨rfl, fun _ => rfl⟩
  have hview := toOption_splice write hfield
  rw [segments, hsettled] at hview
  cases hsplice : splice write (.node .interpolated field) with
  | error fault => rw [hsplice] at hview; cases hview
  | ok action => exact ⟨action, rfl⟩

/-- **Splicing depends on the merged runs, and fails before a slot is written.**  For every way of
writing slots, in any monad:

* a run can be cut up otherwise, or left out where it is empty, and neither the text nor what is
  written changes;
* either there is a failure, and some part is neither a string with a text nor a slot, or every
  slot is written once, in order, and the text is made of what comes out;
* a part that is neither a string nor a slot makes splicing fail, and nothing is written.  The
  failure names the first such part, unless a string without a text stands before a slot that comes
  before it: then a run that cannot be merged is what fails. -/
theorem splice_of_merged_runs :
    (∀ (field field' : Field → Value) (before runs runs' after : List Value) (text : List Char),
      (field .parts).sequence = .ok (before ++ (runs ++ after)) →
      (field' .parts).sequence = .ok (before ++ (runs' ++ after)) →
      HaveText runs text → HaveText runs' text →
        (splice write (.node .interpolated field)).toOption =
          (splice write (.node .interpolated field')).toOption) ∧
    (∀ (field : Field → Value) (parts : List Value), (field .parts).sequence = .ok parts →
      (∃ fault, splice write (.node .interpolated field) = .error fault ∧
          ∃ part ∈ parts, ¬IsStringPart part) ∨
        ∃ text : List (List Char) → List Char, splice write (.node .interpolated field) =
          .ok (text <$> (slotStatements parts).mapM write)) ∧
    (∀ (field : Field → Value) (before : List Value) (part : Value) (after : List Value),
      (field .parts).sequence = .ok (before ++ part :: after) →
      (∀ first ∈ before, first.isStringOrSlot = true) → part.isStringOrSlot = false →
        (IsMergeable before → splice write (.node .interpolated field) =
            .error (.unsupported part.typeName (some .notStringPart))) ∧
          (¬IsMergeable before → ∃ typeName place, splice write (.node .interpolated field) =
            .error (.notText typeName place 0))) := by
  refine ⟨?recut, ?slots, ?refused⟩
  case recut =>
    intro field field' before runs runs' after text hfield hfield' hruns hruns'
    exact toOption_splice_recut write hfield hfield' hruns hruns'
  case slots =>
    intro field parts hfield
    cases hsplice : splice write (.node .interpolated field) with
    | error fault =>
      refine Or.inl ⟨fault, rfl, ?_⟩
      by_contra hparts
      obtain ⟨action, haction⟩ := exists_splice_eq_ok write hfield fun part hpart =>
        not_not.mp fun h => hparts ⟨part, hpart, h⟩
      rw [hsplice] at haction
      cases haction
    | ok action =>
      obtain ⟨text, haction⟩ := (splice_eq_of_ok write hfield hsplice).2
      exact Or.inr ⟨text, congrArg Except.ok haction⟩
  case refused =>
    intro field before part after hfield hbefore hpart
    refine ⟨fun hmerge => ?first, fun hmerge => ?textless⟩
    case first =>
      rw [splice_eq write hfield, segments, segmentsAfter_refused hbefore hmerge hpart after
        (Or.inl rfl)]
      rfl
    case textless =>
      obtain ⟨typeName, place, hsegments⟩ := segmentsAfter_textless hbefore
        ((part :: after).map (Rules.stringPart id)) (p := .empty) (Or.inl hmerge)
      refine ⟨typeName, place, ?_⟩
      rw [splice_eq write hfield, segments, List.map_append, hsegments]
      rfl

/-- A string with a text. -/
def textRun (text : String) : Value := .ofFields .string [(.content, .scalar (.str text))]

/-- The fields of an interpolated string. -/
def stringFields (parts : List Value) (f : Field) : Value :=
  (List.lookup f [(.parts, .seq parts)]).getD (Kind.interpolated.defaultOf f)

/-- A string without a text, a slot, and a part that is refused. -/
def textlessParts : List Value :=
  [.ofFields .string [(.content, .scalar (.int 5))], .ofFields .embedded [],
    .ofFields .integer [(.value, .scalar (.int 1))]]

/-- A number sign and a brace in one run or in two, a number in the place of a part, and a number
after a string without a text and a slot. -/
theorem splice_of_merged_runs_sign :
    ((splice (m := Id) (fun _ => ['y']) (.node .interpolated
          (stringFields [textRun "#", textRun "\x7bx\x7d", .ofFields .embedded []]))).toOption =
        (splice (m := Id) (fun _ => ['y']) (.node .interpolated
          (stringFields [textRun "#\x7bx\x7d", .ofFields .embedded []]))).toOption) ∧
      splice (m := Id) (fun _ => ['y']) (.node .interpolated
          (stringFields [.ofFields .embedded [], .ofFields .integer []])) =
        .error (.unsupported "Integer" (some .notStringPart)) ∧
      ∃ typeName place, splice (m := Id) (fun _ => ['y']) (.node .interpolated
          (stringFields textlessParts)) = .error (.notText typeName place 0) := by
  refine ⟨?_, ?_, ?_⟩
  · exact (splice_of_merged_runs (m := Id) fun _ => ['y']).1 _ _ []
      [textRun "#", textRun "\x7bx\x7d"] [textRun "#\x7bx\x7d"] [.ofFields .embedded []]
      "#\x7bx\x7d".toList rfl rfl ⟨["#".toList, "\x7bx\x7d".toList], rfl, rfl⟩
      ⟨["#\x7bx\x7d".toList], rfl, rfl⟩
  · refine ((splice_of_merged_runs (m := Id) fun _ => ['y']).2.2 _ [.ofFields .embedded []]
      (.ofFields .integer []) [] rfl ?_ rfl).1 ?_
    · exact List.forall_mem_singleton.mpr rfl
    · exact List.pairwise_singleton ..
  · refine ((splice_of_merged_runs (m := Id) fun _ => ['y']).2.2 _ (textlessParts.take 2)
      (.ofFields .integer [(.value, .scalar (.int 1))]) [] rfl ?_ rfl).2 fun hmerge => ?_
    · exact List.forall_mem_cons.mpr ⟨rfl, List.forall_mem_singleton.mpr rfl⟩
    · exact absurd (List.pairwise_pair.mp hmerge rfl) (by decide)

/-- A string without a text before a slot is noticed before a part that is refused. -/
theorem splice_textless_first :
    (textlessParts.filter fun part => !part.isStringOrSlot).map typeName = ["Integer"] ∧
      splice (m := Id) (fun _ => []) (.node .interpolated (stringFields textlessParts)) ≠
        .error (.unsupported "Integer" (some .notStringPart)) := by
  have hsplice : splice (m := Id) (fun _ => [])
      (.node .interpolated (stringFields textlessParts)) = .error (.notText "int" 0 0) := rfl
  refine ⟨rfl, ?_⟩
  rw [hsplice]
  intro h
  cases h

end Value
end TerseRuby
