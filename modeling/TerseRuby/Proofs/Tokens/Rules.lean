import TerseRuby.Proofs.Tokens.Bars
import TerseRuby.Proofs.Tokens.Parts

/-!
# Every rule closes what it opens

For each rule of the renderer there is a lemma `settles_…`: what the rule writes is settled if what
is written of its parts is, and the names that it takes from the tree are names.  Here are those for
operands, arguments, literals, calls and definitions; control structures, and the rules taken
together, are in `Proofs/Tokens/Nodes.lean`.
-/

set_option autoImplicit false

namespace TerseRuby

/-- The parts of a value are settled, and its names are spelled properly. -/
structure PartsSettle (o : Options) (v : Value) (c : Field → FieldRendition) : Prop where
  /-- The fields that a node has, its location apart. -/
  parts : ∀ f, v.kind?.any (·.owns f) = true → (c f).Settles o
  /-- They are those of the value. -/
  values : ∀ f, (c f).value = v.field f
  /-- The value is spelled properly. -/
  spelled : v.isSpelled = true

namespace PartsSettle

variable {o : Options} {v : Value} {c : Field → FieldRendition} {kind : Kind} {f : Field}

theorem part (h : PartsSettle o v c) (hkind : v.kind? = some kind) (hf : kind.owns f = true) :
    (c f).Settles o :=
  h.parts f (by rw [hkind]; exact hf)

theorem part_of_has (h : PartsSettle o v c) (hf : f ≠ .location)
    (hhas : v.kind?.any (·.has f) = true) : (c f).Settles o :=
  h.parts f (Kind.any_owns_of_any_has hf hhas)

theorem isTyped (h : PartsSettle o v c) (hkind : v.kind? = some kind) (hf : kind.owns f = true) :
    (kind.position f).isTyped (c f).value = true := by
  obtain ⟨field, rfl⟩ := Value.exists_of_kind? hkind
  rw [h.values]
  exact Value.isTyped_of_isSpelled h.spelled hf

theorem isProperText (h : PartsSettle o v c) (hkind : v.kind? = some kind)
    (hf : kind.owns f = true) {text : String} (htext : (c f).value.text? = some text) :
    Value.isProperText kind v.field f text.toList = true := by
  obtain ⟨field, rfl⟩ := Value.exists_of_kind? hkind
  rw [h.values] at htext
  exact Value.isProperText_of_isSpelled h.spelled hf htext

theorem isWord_name (h : PartsSettle o v c) (hkind : v.kind? = some kind)
    (hname : kind.owns .name = true) : (c .name).value.IsWord :=
  fun _ htext => Value.closedName_of_isProperName (h.isProperText hkind hname htext)

theorem isWord_operator (h : PartsSettle o v c) (hkind : v.kind? = some kind)
    (hoperator : kind.owns .operator = true) : (c .operator).value.IsWord := by
  intro text htext
  have hplain : ∀ text ∈ Literal.compoundOperators,
      text ≠ [] ∧ ∀ d ∈ text, Lexer.isPlain d = true := by
    decide
  have hmem := List.contains_iff_mem.mp (h.isProperText hkind hoperator htext)
  exact .of_isPlain (hplain _ hmem).1 (hplain _ hmem).2

/-- What has a name and a value has a name that can also be a label. -/
theorem exists_name (h : PartsSettle o v c) (hname : v.kind?.any (·.has .name) = true)
    (hvalue : v.kind?.any (·.has .value) = true) :
    ∃ text : String, (c .name).value = .scalar (.str text) ∧ Lexer.Closed text.toList ∧
      Lexer.Closed (text.toList ++ [':']) := by
  obtain ⟨kind, hkind, hname⟩ := (Option.any_eq_true _ _).mp hname
  rw [hkind] at hvalue
  have hname := Kind.owns_of_has (by decide) hname
  have hposition : kind.position .name = .name ∧ kind ≠ .call ∧ kind ≠ .methodDef := by
    revert hvalue
    cases kind <;> decide
  have htyped := h.isTyped hkind hname
  rw [hposition.1] at htyped
  obtain ⟨text, htext, -⟩ := (Option.any_eq_true _ _).mp htyped
  refine ⟨text, ?_, (h.isWord_name hkind hname text htext).closed, ?_⟩
  · revert htext
    cases (c .name).value with
    | scalar s =>
      cases s <;> intro htext <;> cases htext
      rfl
    | _ => intro htext; cases htext
  · have hproper := h.isProperText hkind hname htext
    unfold Value.isProperText Value.isProperName at hproper
    cases kind
    case call => exact absurd rfl hposition.2.1
    case methodDef => exact absurd rfl hposition.2.2
    case instanceRead | instanceWrite | globalRead | globalWrite =>
      exact Lexer.closed_label_of_isVariable hproper
    all_goals exact Lexer.closed_label_of_isIdentifier hproper

end PartsSettle

open Writer (Settles SettlesText ensures_pure ensures_throw ensures_lift ensures_shown
  ensures_integer ensures_ite ensures_mapM ensures_read ensures_get ensures_declare)
open FieldRendition (settlesText_ifPresent settles_ifPresent)
open Draft (settled_of settled_lit settled_nil settled_word settled_separator settled_ite
  settled_afterKeyword)

variable {o : Options} {v : Value} {c : Field → FieldRendition}

namespace Rules

/-- Entering a variable changes no text. -/
theorem ensures_declared (name : Value) :
    (Writer.declare name).Ensures (fun _ => True) fun _ => True :=
  ensures_declare fun _ _ => trivial

theorem ensures_answer {α : Type} (e : Except Fault α) :
    (liftM e : Writer α).Ensures (fun _ => True) fun _ => True :=
  ensures_lift fun _ _ => trivial

/-! ## Operands -/

theorem settles_logical (hleft : (c .left).Settles o) (hright : (c .right).Settles o)
    {op : Operator} (hop : ∀ d ∈ op.symbol.toList, Lexer.isPlain d = true) (asWord : Bool) :
    (logical c op asWord).Settles o := by
  refine (hleft.whole.operand _ _).bind fun left hl => (hright.whole.operand _ _).bind
    fun right hr => ensures_ite (fun _ => ensures_pure ?_) fun _ => ensures_pure ?_
  · have hword : (Draft.lit (" " ++ op.symbol ++ " ")).Settled o := by
      refine settled_lit fun d hd => ?_
      simp only [String.toList_append, List.mem_append] at hd
      obtain (hd | hd) | hd := hd
      · exact (by decide : ∀ d ∈ " ".toList, Lexer.isPlain d = true) d hd
      · exact hop d hd
      · exact (by decide : ∀ d ∈ " ".toList, Lexer.isPlain d = true) d hd
    exact ((settled_of hl).append hword).append (settled_of hr)
  · exact settled_of (Text.settled_joinInfix hop hl hr)

theorem settles_negation (h : (c .expression).Settles o) : (negation c).Settles o :=
  (h.whole.operand _ _).bind fun _ ht => ensures_pure (settled_afterKeyword (by decide) ht)

theorem settles_range (hleft : (c .left).Settles o) (hright : (c .right).Settles o) :
    (range c).Settles o := by
  refine (settlesText_ifPresent (hleft.whole.operand _ _)).bind fun left hl =>
    (settlesText_ifPresent (hright.whole.operand _ _)).bind fun right hr => ensures_pure ?_
  have hop : (Draft.lit (if (c .exclusive).value.isTrue then Operator.exclusiveRange
      else .inclusiveRange).symbol).Settled o := by
    split <;> exact settled_lit (by decide)
  exact (((settled_of hl).append hop).append (settled_of hr)).grouped _

theorem settles_assignment (hname : (c .name).value.IsWord) (hvalue : (c .value).Settles o) :
    (assignment c).Settles o :=
  hvalue.whole.assignedValue.bind fun _ hd => ensures_pure ((settled_word hname).append hd)

theorem settles_localAssignment (hname : (c .name).value.IsWord) (hvalue : (c .value).Settles o) :
    (localAssignment c).Settles o :=
  (ensures_declared _).bind fun _ _ => settles_assignment hname hvalue

theorem settles_compoundAssignment (htarget : (c .target).Settles o)
    (hoperator : (c .operator).value.IsWord) (hvalue : (c .value).Settles o) :
    (compoundAssignment c).Settles o := by
  have hrest (declaration : Writer Unit)
      (h : declaration.Ensures (fun _ => True) fun _ => True) :
      (declaration >>= fun _ => do
        let text ← (c .target).text .expression
        if text.isEmpty then throw .emptyText
        let gap := if text.endsWith Text.isNameMark then Draft.lit " " else []
        let value ← (c .value).operand .assign .right
        return Draft.of text ++ gap ++ Draft.word (c .operator).value ++ Draft.of value :
          Writer Draft).Settles o :=
    h.bind fun _ _ => (htarget.whole.text rfl rfl).bind fun _ ht =>
      ensures_ite (fun _ => ensures_throw _) fun _ => (hvalue.whole.operand _ _).bind fun _ hu =>
        ensures_pure ((((settled_of ht).append (settled_ite (settled_lit (by decide)))).append
          (settled_word hoperator)).append (settled_of hu))
  rw [compoundAssignment]
  by_cases hlocal : (c .target).value.isKind .localRead = true
  · simp only [hlocal, if_true]
    exact hrest _ (ensures_declared _)
  · simp only [hlocal]
    exact hrest (pure ()) (ensures_pure trivial)

/-- Two colons and the name after them are one piece: the colons alone could begin a symbol. -/
theorem settled_inNamespace {name : Value} (h : name.IsWord) (htext : name.isText = true) :
    (Draft.lit "::" ++ Draft.word name).Settled o := by
  obtain ⟨text, htext⟩ := Option.isSome_iff_exists.mp htext
  have hclosed : Lexer.Closed ("::".toList ++ text.toList) := (h text htext).inNamespace
  have hsplit : Text.lit "::" ++ Text.lit text = Text.ofChars ("::".toList ++ text.toList) := by
    simp [Text.lit, Text.ofChars]
  rw [Draft.word, htext]
  refine Draft.settled_of_build (Draft.build_append (Draft.build_lit _) (Draft.build_lit _)) ?_
  rw [hsplit]
  exact Text.settled_ofChars hclosed

theorem settles_constantPath (hparent : (c .parent).Settles o) (hname : (c .name).value.IsWord)
    (htext : (c .name).value.isText = true) : (constantPath c).Settles o := by
  refine (settlesText_ifPresent hparent.whole.memberOperand).bind fun parent hp =>
    ensures_pure ?_
  rw [List.append_assoc]
  exact (settled_of hp).append (settled_inNamespace hname htext)

/-! ## Arguments and elements -/

theorem settlesText_arguments {items : List Rendition} (hitems : ∀ e ∈ items, e.Settles o)
    {block? : Option Rendition} (hblock : ∀ e ∈ block?, e.Settles o) :
    (arguments items block?).SettlesText o := by
  refine (ensures_mapM fun e he => ?_).bind fun _ hts =>
    ensures_pure (Text.settled_commaSeparated hts)
  rcases List.mem_append.mp he with he | he
  · exact (hitems e he).text rfl rfl
  · exact (hblock e (Option.mem_toList.mp he)).text rfl rfl

theorem forall_mem_none : ∀ e ∈ (none : Option Rendition), e.Settles o := by
  intro e he
  cases he

theorem forall_mem_blockArgument? {r : FieldRendition} (h : r.Settles o) :
    ∀ e ∈ blockArgument? r, e.Settles o := by
  intro e he
  rw [blockArgument?] at he
  split at he
  · rw [Option.mem_some_iff] at he
    exact he ▸ h.whole
  · cases he

theorem settlesText_argumentSequence {r : FieldRendition} (h : r.Settles o)
    {block? : Option Rendition} (hblock : ∀ e ∈ block?, e.Settles o) :
    (r.sequence >>= fun items => arguments items block?).SettlesText o :=
  h.sequence.bind fun _ hitems => settlesText_arguments hitems hblock

theorem settlesText_hashElements {r : FieldRendition} (h : r.Settles o) :
    (hashElements r).SettlesText o :=
  h.sequence.bind fun _ hitems => (ensures_mapM fun e he => (hitems e he).text rfl rfl).bind
    fun _ hts => ensures_pure (Text.settled_commaSeparated hts)

theorem settlesText_spread {stars : String} (hstars : ∀ d ∈ stars.toList, Lexer.isPlain d = true)
    {r : FieldRendition} (h : r.Settles o) : (spread stars r).SettlesText o :=
  (settlesText_ifPresent h.whole.memberOperand).bind fun _ ht =>
    ensures_pure ((Text.settled_lit hstars).append ht)

theorem settled_keyLabel {key : Value} {label : Text} (h : keyLabel? key = .ok (some label)) :
    label.Settled o := by
  unfold keyLabel? at h
  split at h
  · split at h
    · rename_i name _
      have hlabel := Except.ok.inj h
      unfold Literal.label? at hlabel
      split at hlabel
      · cases hlabel
        exact Text.settled_ofChars (Lexer.closed_label_of_isIdentifier ‹_›)
      · cases hlabel
    · cases h
  · cases h

theorem settlesText_pair (hkey : (c .key).Settles o) (hvalue : (c .value).Settles o) :
    (pair c).SettlesText o := by
  refine (ensures_lift (Q := fun label? => keyLabel? (c .key).value = .ok label?)
    fun _ h => h).bind fun label? hlabel => ?_
  cases label? with
  | some label =>
    exact (hvalue.whole.text rfl rfl).bind fun _ ht =>
      ensures_pure (Text.settled_joinLabel (settled_keyLabel hlabel) ht)
  | none =>
    exact (hkey.whole.text rfl rfl).bind fun _ hs => (hvalue.whole.text rfl rfl).bind fun _ ht =>
      ensures_pure (Text.settled_joinInfix (by decide) hs ht)

theorem settlesText_hashElement (h : PartsSettle o v c) : (hashElement v c).SettlesText o := by
  unfold hashElement
  split
  · rename_i hkind
    exact settlesText_pair (h.part hkind rfl) (h.part hkind rfl)
  · rename_i hkind
    exact settlesText_spread (by decide) (h.part hkind rfl)
  · exact ensures_throw _

theorem settlesText_argument (h : PartsSettle o v c) {asExpression : Writer Draft}
    (hexpression : asExpression.Settles o) : (argument v c asExpression).SettlesText o := by
  unfold argument
  split
  · rename_i hkind
    exact settlesText_spread (by decide) (h.part hkind rfl)
  · rename_i hkind
    exact settlesText_spread (by decide) (h.part hkind rfl)
  · exact settlesText_hashElement h
  · rename_i hkind
    exact settlesText_hashElements (h.part hkind rfl)
  · exact hexpression.built.bind fun _ ht => (ensures_answer _).bind fun _ _ =>
      ensures_pure (ht.grouped _)

/-! ## Parameters -/

theorem settlesText_parameter (h : PartsSettle o v c) {sign : String}
    (hsign : ∀ d ∈ sign.toList, Lexer.isPlain d = true) :
    (parameter v c sign).SettlesText o := by
  have hlit : (Text.lit sign).Settled o := Text.settled_lit hsign
  refine (ensures_require v .name).bind fun _ hhas => ensures_ite (fun _ => ensures_pure hlit)
    fun _ => (ensures_declared _).bind fun _ _ => ?_
  split
  · rename_i name hname
    obtain ⟨kind, hkind, hown⟩ :=
      (Option.any_eq_true _ _).mp (Kind.any_owns_of_any_has (by decide) hhas)
    exact ensures_pure
      (hlit.append (Text.settled_ofChars (h.isWord_name hkind hown name hname).closed))
  · exact ensures_throw _

theorem settlesText_optionalParameter (h : PartsSettle o v c) :
    (optionalParameter v c).SettlesText o := by
  refine (ensures_require v .name).bind fun _ hname => (ensures_declared _).bind fun _ _ =>
    (ensures_require v .value).bind fun _ hvalue => ?_
  obtain ⟨text, heq, hclosed, -⟩ := h.exists_name hname hvalue
  refine ((h.part_of_has (by decide) hvalue).whole.text rfl rfl).bind fun _ ht =>
    (ensures_shown (Q := (· = text)) (congrArg Value.display heq)).bind ?_
  rintro _ rfl
  refine ensures_pure ?_
  exact ((Text.settled_ofChars hclosed).append Text.settled_equals).append ht

theorem settlesText_keywordParameter (h : PartsSettle o v c) :
    (keywordParameter v c).SettlesText o := by
  refine (ensures_require v .name).bind fun _ hname => (ensures_declared _).bind fun _ _ =>
    (ensures_shown (Q := (· = (c .name).value.display)) rfl).bind ?_
  rintro _ rfl
  refine (ensures_require v .value).bind fun _ hvalue => ?_
  obtain ⟨text, heq, -, hclosed⟩ := h.exists_name hname hvalue
  have hlabel : (Text.lit (c .name).value.display ++ Text.lit ":").Settled o := by
    have hsplit : Text.lit text ++ Text.lit ":" = Text.ofChars (text.toList ++ [':']) := by
      simp [Text.lit, Text.ofChars]
    rw [heq]
    exact hsplit ▸ Text.settled_ofChars hclosed
  exact ensures_ite (fun _ => ensures_pure hlabel) fun _ =>
    ((h.part_of_has (by decide) hvalue).whole.text rfl rfl).bind fun _ ht =>
      ensures_pure (Text.settled_joinLabel hlabel ht)

theorem ensures_parameterGroup {r : FieldRendition} (h : r.Settles o) {role : Role}
    (hrole : role.isInner = true) (hfits : ∀ v : Value, v.fits role = true) :
    (parameterGroup r role).Ensures (fun _ => True) fun ts => ∀ t ∈ ts, t.Settled o :=
  h.sequence.bind fun _ hitems => ensures_mapM fun e he => (hitems e he).text hrole (hfits _)

theorem ensures_singleParameter {r : FieldRendition} (h : r.Settles o) {sign : String}
    (hsign : sign.toList.all Lexer.isPlain = true) :
    (singleParameter r sign).Ensures (fun _ => True) fun ts => ∀ t ∈ ts, t.Settled o :=
  FieldRendition.ensures_ifPresent (List.forall_mem_nil _) fun _ =>
    (h.whole.text (show (Role.parameter sign).isInner = true from hsign) rfl).bind fun _ ht =>
      ensures_pure (List.forall_mem_singleton.mpr ht)

theorem settlesText_parameters (h : PartsSettle o v c) : (parameters v c).SettlesText o := by
  refine (ensures_require v .requireds).bind fun _ hhas => ?_
  obtain ⟨kind, hkind, hhas⟩ := (Option.any_eq_true _ _).mp hhas
  cases Kind.eq_of_has_requireds hhas
  have part (f : Field) (hown : Kind.parameters.owns f = true) : (c f).Settles o :=
    h.part hkind hown
  refine (ensures_parameterGroup (part .requireds rfl) rfl fun _ => rfl).bind fun _ h₁ =>
    (ensures_parameterGroup (part .optionals rfl) rfl fun _ => rfl).bind fun _ h₂ =>
    (ensures_singleParameter (part .rest rfl) (by decide)).bind fun _ h₃ =>
    (ensures_parameterGroup (part .posts rfl) rfl fun _ => rfl).bind fun _ h₄ =>
    (ensures_parameterGroup (part .keywords rfl) rfl fun _ => rfl).bind fun _ h₅ =>
    (ensures_singleParameter (part .keywordRest rfl) (by decide)).bind fun _ h₆ =>
    (ensures_singleParameter (part .block rfl) (by decide)).bind fun _ h₇ =>
    ensures_pure (Text.settled_commaSeparated ?_)
  simp only [List.forall_mem_append]
  exact ⟨⟨⟨⟨⟨⟨h₁, h₂⟩, h₃⟩, h₄⟩, h₅⟩, h₆⟩, h₇⟩

/-! ## Literals -/

theorem settles_integer {value : Value} (h : value.isWhole = true) :
    (liftM (integer value) : Writer Draft).Settles o := by
  refine ensures_integer ?_
  cases value with
  | scalar s =>
    refine settled_lit fun d hd => Lexer.isPlain_of_mem_literalChars d ?_
    exact Lexer.display_subset h hd
  | _ => cases h

theorem settles_float (value : Value) : (liftM (float value) : Writer Draft).Settles o := by
  refine ensures_lift fun d hd => ?_
  cases value with
  | scalar s =>
    obtain ⟨text, htext, hd⟩ := exists_of_bind_eq_ok hd
    cases hd
    exact settled_of (Text.settled_ofChars (Lexer.closed_float htext))
  | _ => cases hd

theorem settles_symbol (value : Value) : (liftM (symbol value) : Writer Draft).Settles o := by
  refine ensures_lift fun d hd => ?_
  unfold symbol at hd
  split at hd
  · cases hd
    exact settled_of (Text.settled_ofChars (Lexer.closed_symbol _))
  · cases hd

theorem settles_string {content : Value} (h : content.isText = true) :
    (liftM (string content) : Writer Draft).Settles o := by
  refine ensures_lift fun d hd => ?_
  obtain ⟨text, htext⟩ := Option.isSome_iff_exists.mp h
  rw [string, Content.literal, htext] at hd
  cases hd
  exact settled_of (Text.settled_ofChars (Lexer.closed_string _))

/-- A text of some segments, without the quotes.  What does not begin with a run begins with the
number sign of a slot or ends there, so a number sign before it is followed by no brace. -/
structure IsSplice (o : Options) (segments : List (Literal.Segment Rendition)) (t : Text) :
    Prop where
  /-- The text can stand inside a string, and has no bar outside of its slots. -/
  inside : Lexer.BarlessInside (t.spell o)
  /-- Its beginning. -/
  head : (∀ first ∈ segments.head?, first.isRun = false) →
    (t.spell o ++ ['"']).head? ≠ some '\x7b'

theorem ensures_spliceSegments {segments : List (Literal.Segment Rendition)}
    (hmerged : Literal.IsMerged segments)
    (hslots : ∀ e ∈ Literal.slotsOf segments, (e.text .slot).SettlesText o) :
    (Literal.spliceSegments Text.ofChars (fun slot : Rendition => slot.text .slot)
      segments : Writer Text).Ensures (fun _ => True) (IsSplice o segments) := by
  induction segments with
  | nil => exact ensures_pure ⟨.nil, fun _ => by simp [Text.spell]⟩
  | cons segment rest ih =>
    cases segment with
    | run text =>
      refine (ih hmerged.2 hslots).bind fun tail htail => ensures_pure ⟨?_, fun hfirst => ?_⟩
      · rw [Text.spell_append, Text.spell_ofChars]
        exact htail.inside.escape (fun _ => htail.head (hmerged.1 rfl)) text
      · cases hfirst _ rfl
    | slot content =>
      rw [Literal.slotsOf, List.forall_mem_cons] at hslots
      refine hslots.1.bind fun inner hinner => (ih hmerged.2 hslots.2).bind fun tail htail =>
        ensures_pure ?_
      have hspell : Text.spell o
          (Text.ofChars ['#', '\x7b'] ++ inner ++ Text.ofChars ['\x7d'] ++ tail) =
            '#' :: '\x7b' :: inner.spell o ++ '\x7d' :: Text.spell o tail := by
        simp
      exact ⟨hspell ▸ htail.inside.slot hinner.closed, fun _ => by simp⟩

/-- A string with slots is such a text between quotes. -/
theorem ensures_interpolated (h : (c .parts).Settles o) :
    (interpolated c).Ensures (fun _ => True) fun d => ∃ t : Text, Lexer.BarlessInside (t.spell o) ∧
      d = Draft.of (Text.ofChars ['"'] ++ t ++ Text.ofChars ['"']) := by
  refine h.sequence.bind fun items hitems => ?_
  have hsegments : ((liftM (Literal.segments (items.map (stringPart Rendition.value))) :
      Writer (List (Literal.Segment Rendition))).Ensures (fun _ => True) fun segments =>
        Literal.IsMerged segments ∧
          ∀ e ∈ Literal.slotsOf segments, (e.text .slot).SettlesText o) := by
    refine ensures_lift fun segments hsegments => ⟨Literal.isMerged_segmentsAfter hsegments, ?_⟩
    rw [(slotsOf_segmentsAfter hsegments).1]
    intro e he
    obtain ⟨he, hslot⟩ := List.mem_filter.mp he
    exact (hitems e he).text rfl hslot
  refine hsegments.bind fun segments ⟨hmerged, hslots⟩ => ?_
  refine Writer.Ensures.bind (Q := fun u => ∃ t : Text, Lexer.BarlessInside (t.spell o) ∧
    u = Text.ofChars ['"'] ++ t ++ Text.ofChars ['"']) ?_ fun u ⟨t, ht, hu⟩ =>
      ensures_pure ⟨t, ht, by rw [hu]⟩
  exact (ensures_spliceSegments hmerged hslots).bind fun t ht => ensures_pure ⟨t, ht.inside, rfl⟩

theorem settles_interpolated (h : (c .parts).Settles o) : (interpolated c).Settles o := by
  refine Writer.Ensures.imp (ensures_interpolated h) fun d ⟨t, ht, hd⟩ => ?_
  rw [hd]
  refine settled_of ⟨?_, fun front heq => ?_⟩
  · rw [Text.spell_append, Text.spell_append, Text.spell_ofChars]
    exact ht.inside.closedName.closed
  · have hlast := (List.append_inj' heq rfl).2
    cases hlast

theorem settles_array (h : (c .elements).Settles o) : (array c).Settles o :=
  h.sequence.bind fun _ hitems => (settlesText_arguments hitems forall_mem_none).bind fun _ ht =>
    ensures_pure ((settled_of ht).between rfl rfl)

theorem settles_hash (h : (c .elements).Settles o) : (hash c).Settles o :=
  (settlesText_hashElements h).bind fun _ ht => ensures_pure ((settled_of ht).between rfl rfl)

/-! ## Statements -/

/-- What is written of a statement is settled; a comment is written without a rule. -/
structure SettledStatement (o : Options) (x : Sequence.Statement) : Prop where
  /-- The statement is spelled properly. -/
  spelled : x.value.isSpelled = true
  /-- What is written is settled. -/
  write : x.write.Settles o

theorem settled_comment {field : Field → Value}
    (h : (Value.node .comment field).isSpelled = true) :
    (Draft.lit "#" ++ Draft.word (field .text) ++ Draft.lit "\n").Settled o := by
  have htyped : (field .text).isText = true := Value.isTyped_of_isSpelled h (f := .text) rfl
  obtain ⟨text, htext⟩ := Option.isSome_iff_exists.mp htyped
  have hline : '\n' ∉ text.toList := by
    simpa [Value.isProperText] using Value.isProperText_of_isSpelled h (f := .text) rfl htext
  have hsplit : Text.lit "#" ++ Text.lit text ++ Text.lit "\n" =
      Text.ofChars ('#' :: text.toList ++ ['\n']) := by
    simp [Text.lit, Text.ofChars]
  rw [Draft.word, htext]
  refine Draft.settled_of_build (Draft.build_append (Draft.build_append (Draft.build_lit _)
    (Draft.build_lit _)) (Draft.build_lit _)) ?_
  rw [hsplit]
  exact Text.settled_ofChars (Lexer.closed_comment hline)

theorem settles_writeOne {x : Sequence.Statement} (h : SettledStatement o x) :
    (Sequence.writeOne false x).Settles o := by
  have hspelled := h.spelled
  unfold Sequence.writeOne
  split
  · rename_i heq
    rw [heq] at hspelled
    exact ensures_pure (settled_comment hspelled)
  · exact ensures_pure (settled_lit (by decide))
  · exact h.write

theorem settles_writeFrom (state : SeparatorState) {xs : List Sequence.Statement}
    (h : ∀ x ∈ xs, SettledStatement o x) : (Sequence.writeFrom false state xs).Settles o := by
  induction xs generalizing state with
  | nil => exact ensures_pure settled_nil
  | cons x xs ih =>
    rw [List.forall_mem_cons] at h
    exact (settles_writeOne h.1).bind fun _ hhead => (ih _ h.2).bind fun _ htail =>
      ensures_pure (((settled_ite settled_separator).append hhead).append htail)

theorem settles_sequence {xs : List Sequence.Statement} (h : ∀ x ∈ xs, SettledStatement o x) :
    (Sequence.write false xs).Settles o :=
  ensures_read.bind fun s _ => settles_writeFrom .start fun x hx =>
    h x (Sequence.kept_subset s false _ xs hx)

theorem settles_sequenceOf {r : FieldRendition} (h : r.Settles o) :
    (sequenceOf false r).Settles o := by
  refine h.sequence.bind fun items hitems => settles_sequence fun x hx => ?_
  obtain ⟨e, he, rfl⟩ := List.mem_map.mp hx
  exact ⟨(hitems e he).spelled, (hitems e he).write .statement rfl rfl⟩

theorem settles_clause {r : FieldRendition} (h : r.Settles o) : (Sequence.clause r).Settles o :=
  (h.whole.write (.body false) rfl rfl).bind fun _ hd => ensures_read.bind fun _ _ =>
    (ensures_answer _).bind fun _ _ =>
      ensures_pure ((settled_separator.append hd).append (settled_ite settled_separator))

/-! ## Calls and blocks -/

theorem settles_attachedBlock {r : FieldRendition} (h : r.Settles o) :
    (attachedBlock r).Settles o :=
  ensures_ite (h.whole.write .block rfl) fun _ => ensures_pure settled_nil

theorem settles_block (hparameters : (c .parameters).Settles o) (hbody : (c .body).Settles o) :
    (block c).Settles o := by
  refine Writer.Ensures.withLocals (fun _ => True) (fun _ _ => trivial) ?_
  refine (settlesText_ifPresent (hparameters.whole.text rfl rfl)).bind fun names hnames => ?_
  have hbars : Draft.Settled o
      (if names.isEmpty then [] else Draft.lit "|" ++ Draft.of names ++ Draft.lit "|") := by
    split
    · exact settled_nil
    · exact ((settled_lit (by decide)).append (settled_of hnames)).append (settled_lit (by decide))
  refine ensures_read.bind fun s _ => ensures_ite (fun _ => ?_) fun _ => ?_
  · refine (hbody.whole.write (.body false) rfl rfl).bind fun body hd => ensures_pure ?_
    rw [List.append_assoc (Draft.lit "\x7b")]
    exact (hbars.append hd).between rfl rfl
  · have hkeyword : (Draft.lit " do" ++
        if names.isEmpty then [] else Draft.of [.optionalBlank]).Settled o := by
      split
      · exact (settled_lit (by decide)).append settled_nil
      · exact Draft.settled_of_build (Draft.build_append (Draft.build_lit _) (Draft.build_of _))
          (Text.settled_optionalBlank (by decide))
    exact (Writer.Ensures.withBraces (settles_clause hbody) false).bind fun _ hd =>
      ensures_pure (((hkeyword.append hbars).append hd).append (settled_lit (by decide)))

theorem settles_unaryCall (h : (c .receiver).Settles o) (op : Operator) :
    (unaryCall c op).Settles o := by
  refine (h.whole.operand _ _).bind fun operand ht => ?_
  split
  · exact ensures_ite (fun _ => ensures_throw _) fun _ => ensures_pure
      (((settled_lit (by decide)).append (settled_ite (settled_lit (by decide)))).append
        (settled_of ht))
  · exact ensures_pure ((settled_lit (by decide)).append (settled_of ht))
  · refine ensures_pure (Draft.Settled.append ?_ (settled_of (ht.grouped _)))
    split <;> exact settled_lit (by decide)

theorem isPlain_of_mem_symbol (op : Operator) : ∀ d ∈ op.symbol.toList, Lexer.isPlain d = true := by
  cases op <;> decide

theorem settles_binaryCall (h : (c .receiver).Settles o) (op : Operator) {argument : Rendition}
    (hargument : argument.Settles o) : (binaryCall c op argument).Settles o :=
  (h.whole.operand _ _).bind fun _ hs => (hargument.operand _ _).bind fun _ ht =>
    ensures_pure (settled_of (Text.settled_joinInfix (isPlain_of_mem_symbol op) hs ht))

theorem settled_dot : (dot c).Settled o := by
  rw [dot]
  split <;> exact settled_lit (by decide)

theorem settles_indexAssignment (h : (c .receiver).Settles o) {keys : List Rendition}
    (hkeys : ∀ e ∈ keys, e.Settles o) {value : Rendition} (hvalue : value.Settles o) :
    (indexAssignment c keys value).Settles o :=
  h.whole.memberOperand.bind fun _ hs => (settlesText_arguments hkeys forall_mem_none).bind
    fun _ ht => hvalue.assignedValue.bind fun _ hd =>
      ensures_pure (((settled_of hs).append ((settled_of ht).between rfl rfl)).append hd)

/-- The name of an attribute, without the equals sign at its end. -/
theorem settled_attributeName (h : CallShape.isAttributeAssign (fun f => (c f).value) = .ok true) :
    (Draft.of (Text.ofChars ((c .name).value.text?.getD "").toList.dropLast)).Settled o := by
  unfold CallShape.isAttributeAssign at h
  split at h
  · cases h
  · rename_i name hname
    split at h
    · cases h
    · rename_i hsetter
      rw [hname]
      refine settled_of (Text.settled_ofChars (Value.closedName_of_isIdentifier ?_).closed)
      simp only [CallShape.isSetterName, Bool.not_eq_true', Bool.not_eq_false,
        Bool.and_eq_true] at hsetter
      exact hsetter.2

theorem settles_attributeAssignment (h : (c .receiver).Settles o)
    (hname : CallShape.isAttributeAssign (fun f => (c f).value) = .ok true) {value : Rendition}
    (hvalue : value.Settles o) : (attributeAssignment c value).Settles o :=
  h.whole.memberOperand.bind fun _ hs => hvalue.assignedValue.bind fun _ hd => ensures_pure
    ((((settled_of hs).append settled_dot).append (settled_attributeName hname)).append hd)

theorem settles_indexAccess (hreceiver : (c .receiver).Settles o)
    (harguments : (c .arguments).Settles o) (hblock : (c .block).Settles o) :
    (indexAccess c).Settles o :=
  hreceiver.whole.memberOperand.bind fun _ hs => harguments.sequence.bind fun _ hitems =>
    (settlesText_arguments hitems (forall_mem_blockArgument? hblock)).bind fun _ ht =>
      ensures_pure ((settled_of hs).append ((settled_of ht).between rfl rfl))

theorem settles_argumentList (harguments : (c .arguments).Settles o)
    (hblock : (c .block).Settles o) : (argumentList c).Settles o := by
  have hempty : (Draft.lit "()").Settled o :=
    settled_of (Text.settled_ofChars (Lexer.closed_nil.between rfl rfl))
  refine ensures_ite (fun _ => ?_) fun _ => ensures_ite (fun _ => ensures_pure settled_nil)
    fun _ => ?_
  · exact harguments.sequence.bind fun _ hitems =>
      (settlesText_arguments hitems (forall_mem_blockArgument? hblock)).bind fun _ ht =>
        ensures_pure (settled_of ht).parenthesized
  · exact ensures_read.bind fun _ _ => ensures_get.bind fun _ _ => (ensures_answer _).bind
      fun _ _ => ensures_ite (fun _ => ensures_pure hempty) fun _ => ensures_pure settled_nil

theorem settles_plainCall (hreceiver : (c .receiver).Settles o) (hname : (c .name).value.IsWord)
    (harguments : (c .arguments).Settles o) (hblock : (c .block).Settles o) :
    (plainCall c).Settles o :=
  (settles_ifPresent (hreceiver.whole.memberOperand.bind fun _ hs =>
    ensures_pure ((settled_of hs).append settled_dot))).bind fun _ hfront =>
    (settles_argumentList harguments hblock).bind fun _ hlist =>
      (settles_attachedBlock hblock).bind fun _ hend =>
        ensures_pure (((hfront.append (settled_word hname)).append hlist).append hend)

theorem settles_call (hreceiver : (c .receiver).Settles o) (hname : (c .name).value.IsWord)
    (harguments : (c .arguments).Settles o) (hblock : (c .block).Settles o) :
    (call c).Settles o := by
  have hitems := harguments.each
  refine (ensures_lift (Q := fun shape => CallShape.of (fun f => (c f).value) = .ok shape)
    fun _ h => h).bind fun shape hshape => ?_
  split
  · exact settles_unaryCall hreceiver _
  · rename_i hlist
    rw [hlist] at hitems
    exact settles_binaryCall hreceiver _ (hitems _ List.mem_cons_self)
  · rename_i value hlast
    exact settles_indexAssignment hreceiver (fun e he => hitems e ((List.dropLast_subset _) he))
      (hitems value (List.mem_of_getLast? hlast))
  · rename_i hlist
    rw [hlist] at hitems
    obtain (h | h) | ⟨_, h, _⟩ | ⟨_, h, _⟩ | ⟨h, _⟩ | ⟨_, hassign⟩ :=
      CallShape.cases_of_eq_ok hshape
    iterate 5 cases h
    exact settles_attributeAssignment hreceiver hassign (hitems _ List.mem_cons_self)
  · exact settles_indexAccess hreceiver harguments hblock
  · exact settles_plainCall hreceiver hname harguments hblock

theorem settles_superCall (harguments : (c .arguments).Settles o) (hblock : (c .block).Settles o) :
    (superCall c).Settles o := by
  have hpassed := forall_mem_blockArgument? hblock
  have hend (list : Draft) (hlist : list.Settled o) : (do
      let block ← attachedBlock (c .block)
      return Draft.lit "super" ++ list ++ block).Settles o :=
    (settles_attachedBlock hblock).bind fun _ hd =>
      ensures_pure (((settled_lit (by decide)).append hlist).append hd)
  unfold superCall
  dsimp only
  split
  · exact harguments.sequence.bind fun _ hitems => (settlesText_arguments hitems hpassed).bind
      fun _ ht => hend _ (settled_of ht).parenthesized
  · rename_i block _ hsome
    exact ((hpassed block hsome).text rfl rfl).bind fun _ ht =>
      hend _ ((settled_lit (by decide)).append (settled_of ht))
  · exact hend _ settled_nil

theorem settles_yieldCall (h : (c .arguments).Settles o) : (yieldCall c).Settles o :=
  ensures_ite (fun _ => h.sequence.bind fun _ hitems =>
    (settlesText_arguments hitems forall_mem_none).bind fun _ ht =>
      ensures_pure ((settled_lit (by decide)).append (settled_of ht).parenthesized))
    fun _ => ensures_pure (settled_lit (by decide))

/-- The name of a call of output is that of a method of output. -/
theorem isOutputMethod_of_isOutputCall {s : Setting} {l : Locals} {field : Field → Value}
    (h : isOutputCall s l field = .ok true) :
    (field .name).text?.any outputMethods.contains = true := by
  unfold isOutputCall at h
  split at h
  · cases h
  obtain ⟨-, -, h⟩ := exists_of_bind_eq_ok h
  split at h
  · cases h
  · rename_i hany
    rwa [Bool.not_eq_true', Bool.not_eq_false] at hany

theorem isKeyword_of_isOutputCall {s : Setting} {l : Locals} {field : Field → Value}
    (h : isOutputCall s l field = .ok true) :
    ∃ name, (field .name).text? = some name ∧ Text.isKeyword name = true := by
  obtain ⟨name, hname, hmem⟩ := (Option.any_eq_true _ _).mp (isOutputMethod_of_isOutputCall h)
  have hkeyword : ∀ name ∈ outputMethods, Text.isKeyword name = true := by decide
  exact ⟨name, hname, hkeyword name (List.contains_iff_mem.mp hmem)⟩

/-! ## Definitions -/

theorem settles_methodReceiver {r : FieldRendition} (h : r.Settles o) :
    (methodReceiver r).Settles o :=
  (h.whole.text rfl rfl).bind fun _ ht =>
    ensures_pure ((settled_of (ht.grouped _)).append (settled_lit (by decide)))

theorem settles_methodDef (hreceiver : (c .receiver).Settles o) (hname : (c .name).value.IsWord)
    (hparameters : (c .parameters).Settles o) (hbody : (c .body).Settles o) :
    (methodDef c).Settles o := by
  refine (settles_ifPresent (settles_methodReceiver hreceiver)).bind fun receiver hd => ?_
  refine Writer.Ensures.bind (Q := Draft.Settled o)
    (Writer.Ensures.withLocals (fun _ => True) (fun _ _ => trivial) ?_) fun rest hrest =>
      ensures_pure (((((settled_lit (by decide)).append hd).append (settled_word hname)).append
        hrest).append (settled_lit (by decide)))
  exact (settlesText_ifPresent (hparameters.whole.text rfl rfl)).bind fun names hnames =>
    (settles_clause hbody).bind fun _ he =>
      ensures_pure (((settled_of hnames).grouped _).append he)

theorem settles_scopedClause {r : FieldRendition} (h : r.Settles o) :
    (Writer.inNewScope (Sequence.clause r)).Settles o :=
  Writer.Ensures.withLocals (fun _ => True) (fun _ _ => trivial) (settles_clause h)

theorem settles_classDef (hpath : (c .constantPath).Settles o)
    (hsuperclass : (c .superclass).Settles o) (hbody : (c .body).Settles o) :
    (classDef c).Settles o :=
  (hpath.whole.text rfl rfl).bind fun _ ht =>
    (settles_ifPresent (hsuperclass.whole.memberOperand.bind fun _ hs =>
      ensures_pure ((settled_lit (by decide)).append (settled_of hs)))).bind fun _ hd =>
        (settles_scopedClause hbody).bind fun _ he => ensures_pure
          (((((settled_lit (by decide)).append (settled_of ht)).append hd).append he).append
            (settled_lit (by decide)))

theorem settles_singletonClass (hobject : (c .expression).Settles o)
    (hbody : (c .body).Settles o) : (singletonClass c).Settles o :=
  hobject.whole.memberOperand.bind fun _ ht => (settles_scopedClause hbody).bind fun _ hd =>
    ensures_pure ((((settled_lit (by decide)).append (settled_of ht)).append hd).append
      (settled_lit (by decide)))

theorem settles_moduleDef (hpath : (c .constantPath).Settles o) (hbody : (c .body).Settles o) :
    (moduleDef c).Settles o :=
  (hpath.whole.text rfl rfl).bind fun _ ht => (settles_scopedClause hbody).bind fun _ hd =>
    ensures_pure ((((settled_lit (by decide)).append (settled_of ht)).append hd).append
      (settled_lit (by decide)))

end Rules
end TerseRuby
