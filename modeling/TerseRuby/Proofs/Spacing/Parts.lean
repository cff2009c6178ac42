import TerseRuby.Proofs.Rendering.Punctuation
import TerseRuby.Proofs.Number.Digits
import TerseRuby.Proofs.Spacing.Agreement

/-!
# Operands, arguments and literals, but for blanks

For each rule of the renderer there is a lemma `…_agrees`: if the parts of a filled node are written
in the same way but for blanks, then so is the node.  The flag of the agreement says whether there
is a text at all, and for an expression there is.

Here are the rules for operands, arguments, parameters and literals; the other rules follow in
`Proofs/Spacing/Rules.lean`.
-/

set_option autoImplicit false

namespace TerseRuby

open Writer (Agree agree_pure agree_throw agree_ask agree_read agree_get agree_declare agree_mapM)
open Draft (agrees_of agrees_nil agrees_lit agrees_string agrees_separator agrees_word agrees_name)
open FieldRendition (agree_ifPresent agree_sequence)

variable {b : Bool} {c c' : Field → FieldRendition}

namespace Rules

/-! ## Operands and operators -/

theorem logical_agrees (hleft : (c .left).Expresses b (c' .left))
    (hright : (c .right).Expresses b (c' .right)) (op : Operator) (asWord : Bool) :
    Agree (Draft.Agrees b true) (logical c op asWord) (logical c' op asWord) := by
  refine (hleft.whole.operand _ _).bind fun _ _ hl => (hright.whole.operand _ _).bind
    fun _ _ hr => ?_
  cases asWord with
  | true => exact agree_pure (((agrees_of hl).append (agrees_string _)).append (agrees_of hr))
  | false =>
    rw [hleft.whole.value]
    exact agree_pure (agrees_of (hl.joinInfix hr _ _))

theorem negation_agrees (h : (c .expression).Expresses b (c' .expression)) :
    Agree (Draft.Agrees b true) (negation c) (negation c') :=
  (h.whole.operand _ _).bind fun _ _ ht => agree_pure ((agrees_lit (by decide)).afterKeyword ht)

theorem range_agrees (hleft : (c .left).Expresses b (c' .left))
    (hright : (c .right).Expresses b (c' .right))
    (hexclusive : (c' .exclusive).value = (c .exclusive).value) :
    Agree (Draft.Agrees b true) (range c) (range c') := by
  have hloose {r r' : FieldRendition} (h : r.Expresses b r') (op : Operator) (side : Side) :
      Agree (Text.Agrees b false) (r.ifPresent (r.operand op side))
        (r'.ifPresent (r'.operand op side)) :=
    agree_ifPresent h.whole.value Text.agrees_nil
      ((h.whole.operand op side).mono fun _ _ ht => ht.loosen)
  rw [range, range, hexclusive]
  cases hopen : (c .left).value.isNull
  · -- with a left end the text begins with it
    have hfirm (op : Operator) : Agree (Text.Agrees b true)
        ((c .left).ifPresent ((c .left).operand op .left))
        ((c' .left).ifPresent ((c' .left).operand op .left)) := by
      rw [FieldRendition.ifPresent, FieldRendition.ifPresent, hleft.whole.value, hopen]
      exact hleft.whole.operand op .left
    refine (hfirm _).bind fun _ _ hl => (hloose hright _ _).bind fun _ _ hr => ?_
    rw [hleft.whole.value, hright.whole.value, hopen]
    exact agree_pure
      ((((agrees_of hl).append (agrees_string _)).append (agrees_of hr)).grouped _)
  · -- without one it begins with a parenthesis
    refine (hloose hleft _ _).bind fun _ _ hl => (hloose hright _ _).bind fun _ _ hr => ?_
    rw [hleft.whole.value, hright.whole.value, hopen]
    exact agree_pure
      (((agrees_of hl).append (agrees_string _)).append (agrees_of hr)).parenthesized

theorem assignment_agrees (hname : (c' .name).value = (c .name).value)
    (hfilled : (c .name).value.isName = true) (hvalue : (c .value).Expresses b (c' .value)) :
    Agree (Draft.Agrees b true) (assignment c) (assignment c') := by
  rw [assignment, assignment, hname]
  exact hvalue.whole.assignedValue.bind fun _ _ hd => agree_pure ((agrees_name hfilled).append hd)

theorem localAssignment_agrees (hname : (c' .name).value = (c .name).value)
    (hfilled : (c .name).value.isName = true) (hvalue : (c .value).Expresses b (c' .value)) :
    Agree (Draft.Agrees b true) (localAssignment c) (localAssignment c') := by
  rw [localAssignment, localAssignment, hname]
  exact agree_declare _ (assignment_agrees hname hfilled hvalue)

theorem compoundAssignment_agrees (htarget : (c .target).Expresses b (c' .target))
    (hoperator : (c' .operator).value = (c .operator).value)
    (hword : (c .operator).value.isWord = true) (hvalue : (c .value).Expresses b (c' .value)) :
    Agree (Draft.Agrees b true) (compoundAssignment c) (compoundAssignment c') := by
  have hrest : Agree (Draft.Agrees b true)
      (do
        let text ← (c .target).text .expression
        if text.isEmpty then throw .emptyText
        let gap := if text.endsWith Text.isNameMark then Draft.lit " " else []
        let value ← (c .value).operand .assign .right
        return Draft.of text ++ gap ++ Draft.word (c .operator).value ++ Draft.of value)
      (do
        let text ← (c' .target).text .expression
        if text.isEmpty then throw .emptyText
        let gap := if text.endsWith Text.isNameMark then Draft.lit " " else []
        let value ← (c' .value).operand .assign .right
        return Draft.of text ++ gap ++ Draft.word (c .operator).value ++ Draft.of value) := by
    refine htarget.whole.expression.bind fun text _ ht => ?_
    have hgap : Draft.Agrees b false
        (if text.endsWith Text.isNameMark then Draft.lit " " else [])
        (if text.endsWith Text.isNameMark then Draft.lit " " else []) := by
      split
      · exact agrees_string _
      · exact agrees_nil
    rw [ht.isEmpty, ht.endsWith, List.isEmpty_eq_false_iff.mpr (ht.filled rfl)]
    exact (hvalue.whole.operand _ _).bind fun _ _ hv => agree_pure
      ((((agrees_of ht).append hgap).append (agrees_word hword)).append (agrees_of hv))
  rw [compoundAssignment, compoundAssignment, hoperator, htarget.whole.value]
  dsimp only
  split
  · exact agree_declare _ hrest
  · exact hrest

theorem constantPath_agrees (hparent : (c .parent).Expresses b (c' .parent))
    (hname : (c' .name).value = (c .name).value) (hfilled : (c .name).value.isName = true) :
    Agree (Draft.Agrees b true) (constantPath c) (constantPath c') := by
  rw [constantPath, constantPath, hname]
  refine (agree_ifPresent hparent.whole.value Text.agrees_nil
    (hparent.whole.memberOperand.mono fun _ _ ht => ht.loosen)).bind fun _ _ ht => ?_
  exact agree_pure
    (((agrees_of ht).append (agrees_lit (by decide))).append (agrees_name hfilled))

/-! ## Arguments, elements and parameters -/

/-- Arguments, where it does not matter whether there are any. -/
theorem arguments_agrees {items items' : List Rendition} {block block' : Option Rendition}
    (hitems : List.Forall₂ (Rendition.Agrees b) items items')
    (hblock : List.Forall₂ (Rendition.Agrees b) block.toList block'.toList) :
    Agree (Text.Agrees b false) (arguments items block) (arguments items' block') := by
  have htext (x y : Rendition) (hxy : x.Agrees b y) :
      Agree (Text.Agrees b false) (x.text .argument) (y.text .argument) :=
    (hxy.text .argument rfl).mono fun _ _ ht => ht.loosen
  exact (agree_mapM htext (List.rel_append hitems hblock)).bind fun _ _ htexts =>
    agree_pure (Text.agrees_commaSeparated htexts.1)

/-- A row as long as another one is not empty if the other is not. -/
theorem isEmpty_eq_false {α β : Type} {xs : List α} {ys : List β} (h : ys.length = xs.length)
    (hne : xs ≠ []) : ys.isEmpty = false := by
  rw [List.isEmpty_eq_false_iff, Ne, ← List.length_eq_zero_iff, h, List.length_eq_zero_iff]
  exact hne

/-- At least one argument. -/
theorem arguments_firmly {items items' : List Rendition} (hne : items ≠ [])
    (hitems : List.Forall₂ (Rendition.Expresses b) items items') :
    Agree (Text.Agrees b true) (arguments items none) (arguments items' none) := by
  rw [arguments, arguments, Option.toList_none, List.append_nil, List.append_nil]
  refine (agree_mapM (fun _ _ hxy => hxy.argument) hitems).bind fun texts _ htexts =>
    agree_pure ?_
  have hall := Text.agrees_commaSeparated htexts.1
  rwa [isEmpty_eq_false htexts.2 hne] at hall

theorem blockArgument?_agrees {r r' : FieldRendition} (h : r.Agrees b r') :
    List.Forall₂ (Rendition.Agrees b) (blockArgument? r).toList (blockArgument? r').toList := by
  rw [blockArgument?, blockArgument?, h.whole.value]
  split
  · exact .cons h.whole .nil
  · exact .nil

/-- The elements of a hash, or of named arguments, of which there has to be one. -/
theorem hashElements_agrees {r r' : FieldRendition} (h : r.Agrees b r') {firm : Bool}
    (hfirm : firm = true → r.value.hasElements = true) :
    Agree (Text.Agrees b firm) (hashElements r) (hashElements r') := by
  have htext (x y : Rendition) (hxy : x.Agrees b y) :
      Agree (Text.Agrees b true) (x.text .hashElement) (y.text .hashElement) :=
    hxy.text .hashElement rfl
  refine agree_sequence h.whole.value fun hcollection => ?_
  refine (agree_mapM htext h.elements).bind fun texts _ htexts => agree_pure ?_
  have hall := Text.agrees_commaSeparated htexts.1
  cases firm with
  | false => exact hall.loosen
  | true =>
    rwa [isEmpty_eq_false htexts.2 (h.elements_ne_nil hcollection (hfirm rfl))] at hall

theorem spread_agrees {stars : String} (hstars : stars ≠ "") {r r' : FieldRendition}
    (h : r.Expresses b r') :
    Agree (Text.Agrees b true) (spread stars r) (spread stars r') :=
  (agree_ifPresent h.whole.value Text.agrees_nil
    (h.whole.memberOperand.mono fun _ _ ht => ht.loosen)).bind
      fun _ _ ht => agree_pure ((Text.agrees_lit hstars).append ht)

theorem keyLabel?_eq_some {key : Value} {label : Text} (h : keyLabel? key = .ok (some label)) :
    label.Agrees b true label := by
  unfold keyLabel? at h
  split at h
  · split at h
    · obtain ⟨chars, hlabel, rfl⟩ := Option.map_eq_some_iff.mp (Except.ok.inj h)
      rw [Literal.label?] at hlabel
      split at hlabel
      · cases hlabel
        exact Text.agrees_ofChars (by simp)
      · cases hlabel
    · cases h
  · cases h

theorem pair_agrees (hkey : (c .key).Expresses b (c' .key))
    (hvalue : (c .value).Expresses b (c' .value)) :
    Agree (Text.Agrees b true) (pair c) (pair c') := by
  rw [pair, pair, hkey.whole.value]
  refine agree_ask (settled_keyLabel? _) fun label hlabel => ?_
  cases label with
  | some label =>
    exact hvalue.whole.argument.bind fun _ _ hv =>
      agree_pure ((keyLabel?_eq_some hlabel).joinLabel hv)
  | none =>
    exact hkey.whole.argument.bind fun _ _ hk => hvalue.whole.argument.bind fun _ _ hv =>
      agree_pure (hk.joinInfix hv _ _)

theorem agree_require {β β' : Type} {Q : β → β' → Prop} {v : Value} {f : Field}
    {k : Unit → Writer β} {k' : Unit → Writer β'}
    (hk : v.kind?.any (·.has f) = true → Agree Q (k ()) (k' ())) :
    Agree Q (require v f >>= k) (require v f >>= k') := by
  rw [require]
  split
  · exact hk ‹_›
  · exact fun _ _ => .failed fun _ => rfl

theorem parameter_agrees (v : Value) (hname : (c' .name).value = (c .name).value)
    (sign : String) :
    Agree (Text.Agrees b false) (parameter v c sign) (parameter v c' sign) := by
  refine agree_require fun _ => ?_
  rw [hname]
  dsimp only
  split
  · exact agree_pure (Text.agrees_chars _)
  · refine agree_declare _ ?_
    split
    · exact agree_pure ((Text.agrees_chars _).append (Text.agrees_chars _))
    · exact agree_throw fun _ => rfl

theorem optionalParameter_agrees (v : Value) (hname : (c' .name).value = (c .name).value)
    (hvalue : v.kind?.any (·.has .name) = true → v.kind?.any (·.has .value) = true →
      (c .value).Expresses b (c' .value)) :
    Agree (Text.Agrees b false) (optionalParameter v c) (optionalParameter v c') := by
  refine agree_require fun hhasName => ?_
  rw [hname]
  refine agree_declare _ (agree_require fun hhasValue => ?_)
  refine (hvalue hhasName hhasValue).whole.argument.bind fun _ _ hv => ?_
  rw [hv.equals]
  refine agree_ask (Value.settled_shown _) fun _ _ => ?_
  exact agree_pure
    (((Text.agrees_chars _).append (Text.agrees_equals _)).append hv).loosen

theorem keywordParameter_agrees (v : Value) (hname : (c' .name).value = (c .name).value)
    (hvalue : v.kind?.any (·.has .name) = true → v.kind?.any (·.has .value) = true →
      (c .value).Expresses b (c' .value)) :
    Agree (Text.Agrees b false) (keywordParameter v c) (keywordParameter v c') := by
  refine agree_require fun hhasName => ?_
  rw [hname]
  refine agree_declare _ (agree_ask (Value.settled_shown _) fun name _ => ?_)
  refine agree_require fun hhasValue => ?_
  have hlabel : Text.Agrees b true (Text.lit name ++ Text.lit ":")
      (Text.lit name ++ Text.lit ":") :=
    (Text.agrees_chars _).append (Text.agrees_lit (by decide))
  have hpart := hvalue hhasName hhasValue
  rw [hpart.whole.value]
  split
  · exact agree_pure hlabel.loosen
  · exact hpart.whole.argument.bind fun _ _ hv => agree_pure (hlabel.joinLabel hv).loosen

theorem parameterGroup_agrees {r r' : FieldRendition} (h : r.Agrees b r') {role : Role}
    (hrole : ∀ v : Value, v.fits role = true) :
    Agree (List.Forall₂ (Text.Agrees b false)) (parameterGroup r role)
      (parameterGroup r' role) :=
  agree_sequence h.whole.value fun _ =>
    (agree_mapM (fun x _ hxy => (hxy.text role (hrole x.value)).mono fun _ _ ht => ht.loosen)
      h.elements).mono fun _ _ hall => hall.1

theorem singleParameter_agrees {r r' : FieldRendition} (h : r.Agrees b r') (sign : String) :
    Agree (List.Forall₂ (Text.Agrees b false)) (singleParameter r sign)
      (singleParameter r' sign) :=
  agree_ifPresent h.whole.value .nil ((h.whole.text (.parameter sign) rfl).bind
    fun _ _ ht => agree_pure (.cons ht .nil))

theorem parameters_agrees (v : Value)
    (h : v.kind? = some .parameters → ∀ f, Kind.parameters.owns f = true →
      (c f).Agrees b (c' f)) :
    Agree (Text.Agrees b false) (parameters v c) (parameters v c') := by
  refine agree_require fun hhas => ?_
  obtain ⟨kind, hkind, hhas⟩ := (Option.any_eq_true _ _).mp hhas
  obtain rfl := Kind.eq_of_has_requireds hhas
  have hpart := h hkind
  refine (parameterGroup_agrees (hpart .requireds rfl) fun _ => rfl).bind
    fun _ _ hrequireds => ?_
  refine (parameterGroup_agrees (hpart .optionals rfl) fun _ => rfl).bind
    fun _ _ hoptionals => ?_
  refine (singleParameter_agrees (hpart .rest rfl) _).bind fun _ _ hrest => ?_
  refine (parameterGroup_agrees (hpart .posts rfl) fun _ => rfl).bind
    fun _ _ hposts => ?_
  refine (parameterGroup_agrees (hpart .keywords rfl) fun _ => rfl).bind
    fun _ _ hkeywords => ?_
  refine (singleParameter_agrees (hpart .keywordRest rfl) _).bind
    fun _ _ hkeywordRest => ?_
  refine (singleParameter_agrees (hpart .block rfl) _).bind fun _ _ hblock => ?_
  have hall := List.rel_append (List.rel_append (List.rel_append (List.rel_append (List.rel_append
    (List.rel_append hrequireds hoptionals) hrest) hposts) hkeywords) hkeywordRest) hblock
  exact agree_pure (Text.agrees_commaSeparated hall)

/-! ## Literals -/

open Literal (Segment)

theorem integer_agrees {v : Value} (h : (v.display != "") = true) {d : Draft}
    (hd : integer v = .ok d) : d.Agrees b true d := by
  obtain ⟨text, htext, hd⟩ := exists_of_bind_eq_ok hd
  cases hd
  rw [Value.display_of_shown htext]
  exact agrees_lit (by simpa using h)

theorem text_ne_nil (x : Double) : NumberFormat.ruby.text x ≠ [] := by
  have hsigned (negative : Bool) {cs : List Char} (h : cs ≠ []) :
      NumberFormat.signed negative cs ≠ [] := by
    cases negative with
    | false => exact h
    | true => simp [NumberFormat.signed]
  cases x with
  | nan => decide
  | infinity negative => exact hsigned negative (by decide)
  | finite negative exponent fraction =>
    refine hsigned negative ?_
    rw [NumberFormat.decimalText]
    dsimp only
    split
    · rw [NumberFormat.positional]
      split <;> simp
    · simp [NumberFormat.scientific, NumberFormat.exponent]

/-- The numeral of a whole number does not begin with the letter of an exponent. -/
theorem takeWhile_intText_ne_nil (n : Int) :
    (Decimal.intText n).takeWhile (· != 'e') ≠ [] := by
  cases n with
  | negSucc n => simp [Decimal.intText]
  | ofNat n =>
    rw [Decimal.intText]
    cases htext : Decimal.natText n with
    | nil => exact absurd htext (Decimal.natText_ne_nil n)
    | cons digit digits =>
      have hdigit : Decimal.isDigit digit = true :=
        Decimal.isDigit_of_mem_natText (n := n) (by simp [htext])
      have hne : digit ≠ 'e' := by
        rintro rfl
        revert hdigit
        decide
      simp [hne]

theorem float_ne_nil {s : Scalar} {cs : List Char} (h : Literal.float s = .ok cs) : cs ≠ [] := by
  unfold Literal.float at h
  split at h
  · cases h
    exact text_ne_nil _
  · split at h
    · rename_i hwhole
      split at h
      · cases h
        cases s with
        | int n => simpa [Scalar.display] using takeWhile_intText_ne_nil n
        | bool truth => cases truth <;> decide
        | _ => cases hwhole
      · cases h
    · cases h

theorem float_agrees {v : Value} {d : Draft} (h : float v = .ok d) : d.Agrees b true d := by
  unfold float at h
  split at h
  · obtain ⟨cs, hcs, h⟩ := exists_of_bind_eq_ok h
    cases h
    exact agrees_of (Text.agrees_ofChars (float_ne_nil hcs))
  · cases h

theorem symbol_agrees {v : Value} {d : Draft} (h : symbol v = .ok d) : d.Agrees b true d := by
  rw [symbol] at h
  split at h
  · cases h
    refine agrees_of (Text.agrees_ofChars ?_)
    rw [Literal.symbol]
    split <;> simp
  · cases h

theorem literal_ne_nil {content : Value} {cs : List Char} (h : Content.literal content = .ok cs) :
    cs ≠ [] := by
  rw [Content.literal] at h
  split at h
  · cases h
    rw [Literal.string]
    split <;> simp [Literal.singleQuoted, Literal.doubleQuoted]
  · rw [Content.collection] at h
    split at h
    · cases h
    · obtain ⟨escaped, _, h⟩ := exists_of_bind_eq_ok h
      split at h
      · cases h
        simp
      · cases h

theorem string_agrees {content : Value} {d : Draft} (h : string content = .ok d) :
    d.Agrees b true d := by
  obtain ⟨cs, hcs, h⟩ := exists_of_bind_eq_ok h
  cases h
  exact agrees_of (Text.agrees_ofChars (literal_ne_nil hcs))

theorem spliceSegments_agrees {segments : List (Segment (RelatedPair (Rendition.Agrees b)))}
    (h : ∀ z ∈ Literal.slotsOf segments, z.before.value.isKind .embedded = true) :
    Agree (Text.Agrees b false)
      (Literal.spliceSegments Text.ofChars (fun slot : Rendition => slot.text .slot)
        (segments.map (Segment.map (·.before))))
      (Literal.spliceSegments Text.ofChars (fun slot : Rendition => slot.text .slot)
        (segments.map (Segment.map (·.after)))) := by
  induction segments with
  | nil => exact agree_pure Text.agrees_nil
  | cons segment rest ih =>
    cases segment with
    | run text =>
      have hafter : Literal.afterRun (rest.map (Segment.map (·.after))) =
          Literal.afterRun (rest.map (Segment.map (·.before))) := by
        cases rest <;> rfl
      simp only [List.map_cons, Segment.map, Literal.spliceSegments, hafter]
      exact (ih h).bind fun _ _ ht => agree_pure ((Text.agrees_chars _).append ht)
    | slot z =>
      obtain ⟨hslot, hrest⟩ := List.forall_mem_cons.mp h
      simp only [List.map_cons, Segment.map, Literal.spliceSegments]
      exact (z.related.text .slot hslot).bind fun _ _ hs => (ih hrest).bind fun _ _ ht =>
        agree_pure ((((Text.agrees_chars _).append hs.loosen).append
          (Text.agrees_chars _)).append ht)

theorem interpolated_agrees (h : (c .parts).Agrees b (c' .parts)) :
    Agree (Draft.Agrees b true) (interpolated c) (interpolated c') := by
  refine agree_sequence h.whole.value fun _ => ?_
  obtain ⟨zs, hxs, hys⟩ := exists_pairs h.elements
  have hbefore : (zs.map (·.before)).map (stringPart Rendition.value) =
      (zs.map (stringPart (·.before.value))).map (Literal.Part.map (·.before)) := by
    rw [List.map_map, List.map_map]
    exact List.map_congr_left fun z _ => stringPart_map rfl
  have hafter : (zs.map (·.after)).map (stringPart Rendition.value) =
      (zs.map (stringPart (·.before.value))).map (Literal.Part.map (·.after)) := by
    rw [List.map_map, List.map_map]
    exact List.map_congr_left fun z _ => stringPart_map z.related.value
  simp only [hxs, hys, hbefore, hafter, Literal.segments_map, Writer.liftM_map, bind_map_left]
  refine agree_ask (Literal.settled_segmentsAfter _ _) fun segments hsegments => ?_
  have hslots : ∀ z ∈ Literal.slotsOf segments, z.before.value.isKind .embedded = true := by
    intro z hz
    rw [(slotsOf_segmentsAfter hsegments).1, List.mem_filter] at hz
    exact hz.2
  rw [Literal.splice, Literal.splice, bind_assoc, bind_assoc]
  exact (spliceSegments_agrees hslots).bind fun _ _ ht => agree_pure (agrees_of
    (((Text.agrees_ofChars (by simp)).append ht).append (Text.agrees_chars _)))

theorem array_agrees (h : (c .elements).Expresses b (c' .elements)) :
    Agree (Draft.Agrees b true) (array c) (array c') :=
  agree_sequence h.whole.value fun _ => (arguments_agrees h.toAgrees.elements .nil).bind
    fun _ _ ht => agree_pure
      (((agrees_lit (by decide)).append (agrees_of ht)).append (agrees_lit (by decide)))

theorem hash_agrees (h : (c .elements).Agrees b (c' .elements)) :
    Agree (Draft.Agrees b true) (hash c) (hash c') :=
  (hashElements_agrees h fun hfirm : false = true => by cases hfirm).bind fun _ _ ht => agree_pure
    (((agrees_lit (by decide)).append (agrees_of ht)).append (agrees_lit (by decide)))

end Rules
end TerseRuby
