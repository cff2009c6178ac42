import TerseRuby.Proofs.Locals.Rules
import TerseRuby.Proofs.Number.Literal
import TerseRuby.Proofs.Parameters.Signature

/-!
# Parameter lists read back

`Signature.IsTree s v` says that the tree `v` is the parameter list with the signature `s`; only the
node kinds and the fields that the rules read are fixed.  Such a tree is written whatever the setting
and the variables known so far, unless a number among its defaults has more digits than can be
written, and there are two things to say about that.

* The text is the spelling of the signature (`Signature.IsTree.yields`), part by part: the rules
  put a blank after a label only in front of a symbol, and none at all after an equals sign.  So
  the reader of signatures recovers everything but the place of parameters without a default
  that have nothing in between.
* The names known afterwards are those known before and those of the parameters.  That every value
  enters the names it declares is known already, so what is left is to say which these are
  (`Signature.IsTree.parameterListNames_eq`); a default declares nothing.
-/

set_option autoImplicit false

namespace TerseRuby

/-! ## Characters -/

namespace Text

theorem ofChars_append (cs ds : List Char) : ofChars (cs ++ ds) = ofChars cs ++ ofChars ds :=
  List.map_append

/-- Commas between characters are commas between texts. -/
theorem commaSeparated_ofChars (parts : List (List Char)) :
    commaSeparated (parts.map ofChars) = ofChars (List.intercalate [','] parts) := by
  induction parts with
  | nil => rfl
  | cons part parts ih =>
    cases parts with
    | nil => simp [commaSeparated]
    | cons next parts =>
      rw [List.intercalate_cons_cons, ofChars_append, ofChars_append, ← ih, commaSeparated,
        commaSeparated, List.map_cons, List.map_cons, List.intercalate_cons_cons]
      rfl

theorem startsWith_ofChars (p : Char → Bool) (cs : List Char) :
    (ofChars cs).startsWith p = cs.head?.any p := by
  cases cs <;> rfl

end Text

/-- The value that an identifier is in a tree. -/
def Identifier.value (x : Identifier) : Value := .scalar (.str x.text)

namespace Signature

open Text (ofChars)
open Writer (Yields Needs yields_pure yields_lift yields_declare yields_mapM needs_of needs_after)

/-! ## Trees -/

/-- The tree of a default. -/
inductive Default.IsTree : Default → Value → Prop where
  | var {x : Identifier} {field : Field → Value} (name : field .name = x.value) :
      IsTree (.var x) (.node .localRead field)
  | number {n : Nat} {field : Field → Value} (value : field .value = .scalar (.int n)) :
      IsTree (.number n) (.node .integer field)
  | symbol {x : Identifier} {field : Field → Value} (value : field .value = x.value) :
      IsTree (.symbol x) (.node .symbol field)

/-- The tree of a parameter without a default, which may have no name. -/
inductive IsPlain (kind : Kind) : Option Identifier → Value → Prop where
  | mk {x : Option Identifier} {field : Field → Value}
      (name : field .name = x.elim .null Identifier.value) : IsPlain kind x (.node kind field)

/-- The tree of a parameter with a default. -/
inductive IsOptional : Identifier × Default → Value → Prop where
  | mk {x : Identifier} {d : Default} {field : Field → Value} (name : field .name = x.value)
      (value : d.IsTree (field .value)) : IsOptional (x, d) (.node .optionalParameter field)

/-- The tree of a parameter given by name. -/
inductive IsKeyword : Identifier × Option Default → Value → Prop where
  | bare {x : Identifier} {field : Field → Value} (name : field .name = x.value)
      (value : field .value = .null) : IsKeyword (x, none) (.node .keywordParameter field)
  | withDefault {x : Identifier} {d : Default} {field : Field → Value}
      (name : field .name = x.value) (value : d.IsTree (field .value)) :
      IsKeyword (x, some d) (.node .keywordParameter field)

/-- The trees of a group, in one field. -/
inductive AreItems {α : Type} (P : α → Value → Prop) (as : List α) : Value → Prop where
  | mk {items : List Value} (trees : List.Forall₂ P as items) : AreItems P as (.seq items)

/-- The tree of a parameter that there is at most one of, in one field. -/
inductive IsSingle (kind : Kind) : Option (Option Identifier) → Value → Prop where
  | absent : IsSingle kind none .null
  | present {x : Option Identifier} {v : Value} (parameter : IsPlain kind x v) :
      IsSingle kind (some x) v

/-- The tree of a parameter list. -/
inductive IsTree (s : Signature Identifier Default) : Value → Prop where
  | mk {field : Field → Value}
      (requireds : AreItems (fun x => IsPlain .requiredParameter (some x)) s.requireds
        (field .requireds))
      (optionals : AreItems IsOptional s.optionals (field .optionals))
      (rest : IsSingle .restParameter s.rest (field .rest))
      (posts : AreItems (fun x => IsPlain .requiredParameter (some x)) s.posts (field .posts))
      (keywords : AreItems IsKeyword s.keywords (field .keywords))
      (keywordRest : IsSingle .keywordRestParameter s.keywordRest (field .keywordRest))
      (block : IsSingle .blockParameter s.block (field .block)) :
      IsTree s (.node .parameters field)

/-! ### Each signature has a tree -/

/-- A tree of a default. -/
def Default.tree : Default → Value
  | var x => .ofFields .localRead [(.name, x.value)]
  | number n => .ofFields .integer [(.value, .scalar (.int n))]
  | symbol x => .ofFields .symbol [(.value, x.value)]

/-- A tree of a parameter without a default. -/
def plainTree (kind : Kind) (x : Option Identifier) : Value :=
  .ofFields kind [(.name, x.elim .null Identifier.value)]

/-- A tree of a signature. -/
def tree (s : Signature Identifier Default) : Value :=
  .ofFields .parameters
    [(.requireds, .seq (s.requireds.map fun x => plainTree .requiredParameter (some x))),
      (.optionals, .seq (s.optionals.map fun p =>
        .ofFields .optionalParameter [(.name, p.1.value), (.value, p.2.tree)])),
      (.rest, s.rest.elim .null (plainTree .restParameter)),
      (.posts, .seq (s.posts.map fun x => plainTree .requiredParameter (some x))),
      (.keywords, .seq (s.keywords.map fun p =>
        .ofFields .keywordParameter [(.name, p.1.value), (.value, p.2.elim .null Default.tree)])),
      (.keywordRest, s.keywordRest.elim .null (plainTree .keywordRestParameter)),
      (.block, s.block.elim .null (plainTree .blockParameter))]

theorem Default.isTree_tree (d : Default) : d.IsTree d.tree := by
  cases d with
  | var x => exact .var rfl
  | number n => exact .number rfl
  | symbol x => exact .symbol rfl

theorem isTree_tree (s : Signature Identifier Default) : s.IsTree s.tree := by
  have hitems {α : Type} {P : α → Value → Prop} (as : List α) (tree : α → Value)
      (h : ∀ a, P a (tree a)) : AreItems P as (.seq (as.map tree)) :=
    ⟨List.forall₂_map_right_iff.mpr (List.forall₂_same.mpr fun a _ => h a)⟩
  have hsingle (kind : Kind) (x : Option (Option Identifier)) :
      IsSingle kind x (x.elim .null (plainTree kind)) := by
    cases x with
    | none => exact .absent
    | some x => exact .present ⟨rfl⟩
  have hkeyword (p : Identifier × Option Default) :
      IsKeyword p (.ofFields .keywordParameter
        [(.name, p.1.value), (.value, p.2.elim .null Default.tree)]) := by
    obtain ⟨x, _ | d⟩ := p
    · exact .bare rfl rfl
    · exact .withDefault rfl d.isTree_tree
  exact .mk (hitems _ _ fun x => ⟨rfl⟩) (hitems _ _ fun p => ⟨rfl, p.2.isTree_tree⟩)
    (hsingle _ _) (hitems _ _ fun x => ⟨rfl⟩) (hitems _ _ hkeyword) (hsingle _ _) (hsingle _ _)

/-! ## Parameters are written as their parts -/

variable {s : Setting}

theorem yields_require {kind : Kind} {field : Field → Value} {f : Field} (h : kind.has f = true) :
    Yields s (Rules.require (.node kind field) f) fun _ => True := by
  have hhas : (Value.node kind field).kind?.any (·.has f) = true := h
  rw [Rules.require, if_pos hhas]
  exact yields_pure trivial

/-- The text of a value in a role whose rule returns a text. -/
theorem yields_text {v : Value} {role : Role} {w : Writer Text} {P : Text → Prop}
    (hw : v.rendition.write role = Draft.of <$> w) (h : Yields s w P) :
    Yields s (v.rendition.text role) P := by
  have hdraft : Yields s (Draft.of <$> w) fun d => ∃ t, d = Draft.of t ∧ P t :=
    h.map fun t ht => ⟨t, rfl, ht⟩
  rw [Rendition.text, hw]
  refine hdraft.bind ?_
  rintro _ ⟨t, rfl, ht⟩
  exact yields_lift (Draft.build_of t) ht

theorem isTrue_value (x : Identifier) : x.value.isTrue = true := by
  obtain ⟨text, hname⟩ := x
  have hne : text ≠ "" := by
    rintro rfl
    cases hname
  simpa [Identifier.value, Value.isTrue, Scalar.isTrue] using hne

/-- A parameter without a default is its sign and its name. -/
theorem yields_plain {kind : Kind} {x : Option Identifier} {v : Value} (h : IsPlain kind x v)
    (hkind : kind.has .name = true) (sign : String) :
    Yields s (v.rendition.text (.parameter sign))
      (· = ofChars (sign.toList ++ (x.map Identifier.chars).getD [])) := by
  obtain ⟨name⟩ := h
  refine yields_text rfl ((yields_require hkind).bind fun _ _ => ?_)
  simp only [Value.rendition_value, name]
  cases x with
  | none => exact yields_pure (congrArg ofChars (List.append_nil _).symm)
  | some x =>
    have hname : (!(Option.elim (some x) Value.null Identifier.value).isTrue) = false :=
      congrArg (!·) (isTrue_value x)
    rw [hname, if_neg Bool.false_ne_true]
    exact (yields_declare (Value.checkKey_str x.text)).bind fun _ _ =>
      yields_pure (Text.ofChars_append _ _).symm

/-- A default is written as it is spelled; an argument needs no parentheses for it. -/
theorem yields_default {d : Default} {v : Value} (h : d.IsTree v) (hshort : d.isLong = false) :
    Yields s (v.rendition.text .argument) (· = ofChars d.chars) := by
  have hargument {w : Writer Draft} {t : Text} (hw : Writer.Writes s w t) {v : Value}
      (hoperator : v.operator? = .ok none) :
      Yields s (do
        let text ← w.built
        let child ← v.operator?
        return text.grouped (child.any fun child => child.needsParensAt Operator.argumentRank))
        (· = t) := by
    refine hw.built.bind fun text htext => (yields_lift (P := (· = none)) hoperator rfl).bind ?_
    rintro _ rfl
    exact yields_pure htext
  cases h with
  | @var x field name =>
    refine yields_text rfl (hargument ?_ rfl)
    change Writer.Writes s (pure (Draft.word (field .name).rendition.value)) _
    rw [Value.rendition_value, name]
    exact Writer.writes_pure (Draft.build_word_str _)
  | @number n field value =>
    have hoperator : (Value.node .integer field).operator? = .ok none := by
      simp [Value.operator?, value, Value.signOperator?, Literal.isNumber, Scalar.whole?,
        Literal.isNegative]
    exact yields_text rfl (hargument (Value.writes_integer value hshort) hoperator)
  | @symbol x field value =>
    have hbare : Literal.symbol x.text.toList = ':' :: x.chars := by
      have hname : Literal.isBareSymbol x.text.toList = true := by
        simp [Literal.isBareSymbol, Literal.isMethodName, x.isIdentifier]
      rw [Literal.symbol, if_pos hname, Identifier.chars]
    refine yields_text rfl (hargument ?_ rfl)
    change Writer.Writes s (liftM (Rules.symbol (field .value).rendition.value)) _
    rw [Value.rendition_value, value]
    exact yields_lift rfl ((Draft.build_of _).trans (congrArg (Except.ok ∘ ofChars) hbare))

theorem head?_default_ne_tilde (d : Default) : d.chars.head? ≠ some '~' := by
  have hname (x : Identifier) : x.chars.head? ≠ some '~' := fun hhead =>
    absurd (Literal.isWord_of_isIdentifier x.isIdentifier_chars '~' (List.mem_of_head? hhead))
      (by decide)
  cases d with
  | var x => exact hname x
  | number n =>
    intro hhead
    have hdigit := Decimal.isDigit_of_mem_natText (List.mem_of_head? hhead)
    exact absurd hdigit (by decide)
  | symbol x => simp [Default.chars]

theorem yields_shown {x : Identifier} :
    Yields s (liftM x.value.shown : Writer String) (· = x.value.display) :=
  yields_lift (Value.shown_str x.text) rfl

theorem lit_display (x : Identifier) : Text.lit x.value.display = ofChars x.chars := rfl

theorem Default.IsTree.isNull {d : Default} {v : Value} (h : d.IsTree v) : v.isNull = false := by
  cases h <;> rfl

theorem yields_optional {p : Identifier × Default} {v : Value} (h : IsOptional p v)
    (hshort : p.2.isLong = false) :
    Yields s (v.rendition.text .optionalParameter)
      (· = ofChars (Part.optional p.1.chars p.2.chars).chars) := by
  obtain @⟨x, d, field, name, value⟩ := h
  have htilde : ¬(ofChars d.chars).startsWith (· == '~') = true := by
    rw [Text.startsWith_ofChars, Option.any_eq_true]
    rintro ⟨c, hc, htilde⟩
    exact head?_default_ne_tilde d (beq_iff_eq.mp htilde ▸ hc)
  refine yields_text rfl ((yields_require rfl).bind fun _ _ => ?_)
  simp only [Value.rendition_value, name]
  refine (yields_declare (Value.checkKey_str _)).bind fun _ _ => ?_
  refine (yields_require rfl).bind fun _ _ => (yields_default value hshort).bind ?_
  rintro _ rfl
  refine yields_shown.bind ?_
  rintro _ rfl
  refine yields_pure ?_
  rw [Text.equals, if_neg htilde, lit_display, Text.lit, ← Text.ofChars_append,
    ← Text.ofChars_append, Part.chars, List.append_assoc]
  rfl

/-- A second colon is kept apart from the one of the label. -/
theorem joinLabel_ofChars (label value : List Char) :
    Text.joinLabel (ofChars label) (ofChars value) = ofChars (label ++ Part.afterLabel value) := by
  rw [Text.joinLabel, Text.startsWith_ofChars, Part.afterLabel]
  cases value with
  | nil => simp [Text.ofChars]
  | cons c cs =>
    by_cases hcolon : c = ':'
    · simp [Text.ofChars, Text.lit, hcolon]
    · simp [Text.ofChars, hcolon]

theorem yields_keyword {p : Identifier × Option Default} {v : Value} (h : IsKeyword p v)
    (hshort : p.2.any Default.isLong = false) :
    Yields s (v.rendition.text .keywordParameter)
      (· = ofChars (Part.keyword p.1.chars (p.2.map Default.chars)).chars) := by
  cases h with
  | @bare x field name value =>
    refine yields_text rfl ((yields_require rfl).bind fun _ _ => ?_)
    simp only [Value.rendition_value, name, value]
    refine (yields_declare (Value.checkKey_str _)).bind fun _ _ => yields_shown.bind ?_
    rintro _ rfl
    refine (yields_require rfl).bind fun _ _ => yields_pure ?_
    rw [lit_display, Text.lit, ← Text.ofChars_append]
    rfl
  | @withDefault x d field name value =>
    have hnull : (field .value).isNull = false := value.isNull
    refine yields_text rfl ((yields_require rfl).bind fun _ _ => ?_)
    simp only [Value.rendition_value, name, hnull]
    refine (yields_declare (Value.checkKey_str _)).bind fun _ _ => yields_shown.bind ?_
    rintro _ rfl
    refine (yields_require rfl).bind fun _ _ => (yields_default value hshort).bind ?_
    rintro _ rfl
    refine yields_pure ?_
    rw [lit_display, Text.lit, ← Text.ofChars_append, joinLabel_ofChars, List.append_assoc]
    rfl

/-! ## Groups -/

theorem yields_group {α : Type} {P : α → Value → Prop} {as : List α} {v : Value}
    (h : AreItems P as v) {role : Role} {chars : α → List Char}
    (hwrite : ∀ a ∈ as, ∀ v, P a v → Yields s (v.rendition.text role) (· = ofChars (chars a))) :
    Yields s (Rules.parameterGroup v.rendition role) (· = as.map (ofChars ∘ chars)) := by
  obtain @⟨items, trees⟩ := h
  have hitems : List.Forall₂ (fun a (r : Rendition) =>
      Yields s (r.text role) (· = ofChars (chars a))) as (Value.itemRenditions items) := by
    rw [Value.itemRenditions_eq_map, List.forall₂_map_right_iff]
    have hmembers := (List.forall₂_and_left _ _).mpr ⟨fun a (ha : a ∈ as) => ha, trees⟩
    exact hmembers.imp fun a v h => hwrite a h.1 v h.2
  have hsequence : Yields s (Value.seq items).rendition.sequence
      (· = Value.itemRenditions items) := yields_pure rfl
  refine hsequence.bind ?_
  rintro _ rfl
  refine (yields_mapM hitems).mono fun texts htexts => ?_
  rw [← List.forall₂_eq_eq_eq, List.forall₂_map_right_iff]
  exact htexts.flip

theorem yields_single {kind : Kind} {x : Option (Option Identifier)} {v : Value}
    (h : IsSingle kind x v) (hkind : kind.has .name = true) (sign : String) :
    Yields s (Rules.singleParameter v.rendition sign) (· = x.toList.map fun name =>
      ofChars (sign.toList ++ (name.map Identifier.chars).getD [])) := by
  cases h with
  | absent => exact yields_pure rfl
  | present parameter =>
    have hwrite := yields_plain (s := s) parameter hkind sign
    obtain ⟨name⟩ := parameter
    refine hwrite.bind ?_
    rintro _ rfl
    exact yields_pure rfl

/-- **A parameter list is written as its signature is spelled**, if its defaults can be written. -/
theorem IsTree.yields {sig : Signature Identifier Default} {v : Value} (h : sig.IsTree v)
    (hshort : sig.hasLong = false) :
    Yields s (v.rendition.text .parameters) (· = ofChars sig.texts.chars) := by
  obtain ⟨hoptionals, hkeywords⟩ := Bool.or_eq_false_iff.mp hshort
  simp only [List.any_eq_false, Bool.not_eq_true] at hoptionals hkeywords
  obtain ⟨requireds, optionals, rest, posts, keywords, keywordRest, block⟩ := h
  refine yields_text rfl ((yields_require rfl).bind fun _ _ => ?_)
  refine (yields_group requireds fun x _ v h => yields_plain h rfl "").bind ?_
  rintro _ rfl
  refine (yields_group optionals fun p hp v h => yields_optional h (hoptionals p hp)).bind ?_
  rintro _ rfl
  refine (yields_single rest rfl "*").bind ?_
  rintro _ rfl
  refine (yields_group posts fun x _ v h => yields_plain h rfl "").bind ?_
  rintro _ rfl
  refine (yields_group keywords fun p hp v h => yields_keyword h (hkeywords p hp)).bind ?_
  rintro _ rfl
  refine (yields_single keywordRest rfl "**").bind ?_
  rintro _ rfl
  refine (yields_single block rfl "&").bind ?_
  rintro _ rfl
  refine yields_pure ?_
  rw [Signature.chars, ← Text.commaSeparated_ofChars]
  congr 1
  simp [parts, texts, Function.comp_def, Part.chars, Option.toList_map]

/-! ## Defaults that cannot be written -/

theorem needs_text {v : Value} {role : Role} {w : Writer Text} {p : Prop}
    (hw : v.rendition.write role = Draft.of <$> w) (h : Needs w p) :
    Needs (v.rendition.text role) p := by
  rw [Rendition.text, hw]
  exact Needs.bind h.map

theorem needs_default {d : Default} {v : Value} (h : d.IsTree v) :
    Needs (v.rendition.text .argument) (d.isLong = false) := by
  cases h with
  | @number n field value =>
    have hliteral : Needs ((Value.node .integer field).rendition.write .expression)
        (Decimal.isLong n = false) := by
      change Needs (liftM (Rules.integer (field .value).rendition.value)) _
      rw [Value.rendition_value, value]
      exact Writer.needs_integer
    exact needs_text rfl (Needs.bind hliteral).bind
  | _ => exact needs_of rfl

theorem needs_optional {p : Identifier × Default} {v : Value} (h : IsOptional p v) :
    Needs (v.rendition.text .optionalParameter) (p.2.isLong = false) := by
  obtain @⟨x, d, field, name, value⟩ := h
  exact needs_text rfl (needs_after fun _ => needs_after fun _ => needs_after fun _ =>
    (needs_default value).bind)

theorem needs_keyword {p : Identifier × Option Default} {v : Value} (h : IsKeyword p v) :
    Needs (v.rendition.text .keywordParameter) (p.2.any Default.isLong = false) := by
  cases h with
  | bare name value => exact needs_of rfl
  | @withDefault x d field name value =>
    have hnull : (field .value).isNull = false := value.isNull
    refine needs_text rfl (needs_after fun _ => needs_after fun _ => needs_after fun _ =>
      needs_after fun _ => ?_)
    simp only [Value.rendition_value, hnull]
    exact (needs_default value).bind

theorem needs_group {α : Type} {P : α → Value → Prop} {as : List α} {v : Value}
    (h : AreItems P as v) {role : Role} {long : α → Bool}
    (hitem : ∀ a v, P a v → Needs (v.rendition.text role) (long a = false)) :
    Needs (Rules.parameterGroup v.rendition role) (as.any long = false) := by
  obtain @⟨items, trees⟩ := h
  change Needs ((Value.itemRenditions items).mapM (·.text role)) _
  induction trees with
  | nil => exact needs_of rfl
  | cons ha _ ih =>
    rw [List.any_cons, Bool.or_eq_false_iff, Value.itemRenditions, List.mapM_cons]
    exact (hitem _ _ ha).bind.and (needs_after fun _ => ih.bind)

/-- **A parameter list is written only if its defaults can be.** -/
theorem IsTree.needs_short {sig : Signature Identifier Default} {v : Value} (h : sig.IsTree v) :
    Needs (v.rendition.text .parameters) (sig.hasLong = false) := by
  obtain ⟨requireds, optionals, rest, posts, keywords, keywordRest, block⟩ := h
  refine needs_text rfl (needs_after fun _ => needs_after fun _ => ?_)
  rw [hasLong, Bool.or_eq_false_iff]
  exact (needs_group optionals fun p v => needs_optional).bind.and
    (needs_after fun _ => needs_after fun _ => needs_after fun _ =>
      (needs_group keywords fun p v => needs_keyword).bind)

/-! ## The names that are known afterwards -/

theorem flatMap_elements {α : Type} {P : α → Value → Prop} {as : List α} {v : Value}
    (h : AreItems P as v) {known : Value → List Value} (name : α → Identifier)
    (hname : ∀ a v, P a v → known v = [(name a).value]) :
    v.elements.flatMap known = (as.map name).map Identifier.value := by
  obtain ⟨trees⟩ := h
  induction trees with
  | nil => rfl
  | cons hv _ ih =>
    rw [Value.elements] at ih ⊢
    rw [List.flatMap_cons, hname _ _ hv, ih]
    rfl

theorem parameterNames_of_isPlain {kind : Kind} {x : Option Identifier} {v : Value}
    (h : IsPlain kind x v) : v.parameterNames = x.toList.map Identifier.value := by
  obtain @⟨field, name⟩ := h
  have hfield : (Value.node kind field).field .name = field .name := rfl
  rw [Value.parameterNames, hfield, name]
  cases x with
  | none => rfl
  | some x => exact if_pos (isTrue_value x)

theorem parameterNames_of_isSingle {kind : Kind} {x : Option (Option Identifier)} {v : Value}
    (h : IsSingle kind x v) :
    v.parameterNames = (x.toList.flatMap Option.toList).map Identifier.value := by
  cases h with
  | absent => rfl
  | present parameter => simpa using parameterNames_of_isPlain parameter

/-- A default declares no name. -/
theorem Default.IsTree.declared_eq {d : Default} {v : Value} (h : d.IsTree v) :
    v.declared = [] := by
  cases h <;> simp [Value.declared]

theorem defaultNames_of_isOptional {p : Identifier × Default} {v : Value} (h : IsOptional p v) :
    v.defaultNames = [p.1.value] := by
  obtain @⟨x, d, field, name, value⟩ := h
  change field .name :: (field .value).declared = _
  rw [name, value.declared_eq]

theorem defaultNames_of_isKeyword {p : Identifier × Option Default} {v : Value}
    (h : IsKeyword p v) : v.defaultNames = [p.1.value] := by
  cases h with
  | @bare x field name value =>
    change field .name :: (field .value).declared = _
    rw [name, value]
    rfl
  | @withDefault x d field name value =>
    change field .name :: (field .value).declared = _
    rw [name, value.declared_eq]

/-- **A parameter list declares the names of its signature.** -/
theorem IsTree.parameterListNames_eq {sig : Signature Identifier Default} {v : Value}
    (h : sig.IsTree v) : v.parameterListNames = sig.names.map Identifier.value := by
  obtain @⟨field, requireds, optionals, rest, posts, keywords, keywordRest, block⟩ := h
  have hplain (x : Identifier) (v : Value) (h : IsPlain .requiredParameter (some x) v) :
      v.parameterNames = [x.value] := parameterNames_of_isPlain h
  have hfield (f : Field) : (Value.node .parameters field).field f = field f := rfl
  simp only [Value.parameterListNames, hfield, flatMap_elements requireds id hplain,
    flatMap_elements optionals Prod.fst fun p v => defaultNames_of_isOptional,
    parameterNames_of_isSingle rest, flatMap_elements posts id hplain,
    flatMap_elements keywords Prod.fst fun p v => defaultNames_of_isKeyword,
    parameterNames_of_isSingle keywordRest, parameterNames_of_isSingle block]
  simp [names]

/-- **A parameter list reads back.**  Whatever the setting and the names known before, the tree of
a signature is written if no number among the defaults has more digits than can be written.  From
the text the reader recovers all groups with their names and defaults, except that parameters
without a default are read as the first of the list if nothing is in between.  The names known
afterwards are those known before and those of the parameters. -/
theorem parameters_read_back {sig : Signature Identifier Default} {v : Value} (h : sig.IsTree v)
    (s : Setting) (locals : Locals) :
    (sig.hasLong = false →
      ∃ text locals', ((v.rendition.text .parameters).run s).run locals = .ok (text, locals')) ∧
    ∀ text locals', ((v.rendition.text .parameters).run s).run locals = .ok (text, locals') →
      ∃ chars, text = Text.ofChars chars ∧ read? chars = some sig.texts.normal ∧
        ∀ name, name ∈ locals' ↔ name ∈ locals ∨ ∃ x ∈ sig.names, name = x.value := by
  constructor
  · intro hshort
    obtain ⟨text, locals', hrun, -⟩ := h.yields hshort (s := s) locals
    exact ⟨text, locals', hrun⟩
  · intro text locals' hrun
    have hshort := (h.needs_short s locals text locals' trivial hrun).2
    obtain ⟨_, _, hwritten, rfl⟩ := h.yields hshort (s := s) locals
    cases hrun.symm.trans hwritten
    refine ⟨_, rfl, read?_chars_texts sig, fun name => ?_⟩
    have henters := (Value.enters_rendition v (fun _ => True) fun _ _ => trivial).whole .parameters
    rw [Value.rendition_value] at henters
    obtain ⟨added, rfl, hadded⟩ := ((henters rfl).built).added hrun
    rw [List.mem_append, hadded, or_comm, Value.declaredAs, h.parameterListNames_eq, List.mem_map]
    simp only [eq_comm]

/-- All groups, the named and the nameless:
`a,b=1,*r,c,d:,e: :f,**,&`. -/
def full : Signature Identifier Default where
  requireds := [⟨"a", rfl⟩]
  optionals := [(⟨"b", rfl⟩, .number 1)]
  rest := some (some ⟨"r", rfl⟩)
  posts := [⟨"c", rfl⟩]
  keywords := [(⟨"d", rfl⟩, none), (⟨"e", rfl⟩, some (.symbol ⟨"f", rfl⟩))]
  keywordRest := some none
  block := some none

theorem parameters_read_back_full :
    ∃ text locals', ((full.tree.rendition.text .parameters).run
        (Setting.ofOptions .default)).run [] = .ok (Text.ofChars text, locals') ∧
      read? text = some full.texts.normal ∧
      ∀ name, name ∈ locals' ↔ name ∈ [] ∨ ∃ x ∈ full.names, name = x.value := by
  obtain ⟨hwrites, hreads⟩ :=
    parameters_read_back (isTree_tree full) (Setting.ofOptions .default) []
  obtain ⟨_, locals', hrun⟩ := hwrites rfl
  obtain ⟨text, rfl, hread⟩ := hreads _ _ hrun
  exact ⟨text, locals', hrun, hread⟩

end Signature
end TerseRuby
