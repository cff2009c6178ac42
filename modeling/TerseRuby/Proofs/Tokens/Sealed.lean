import TerseRuby.Proofs.Tokens.Nodes

/-!
# Texts and drafts without bars

A text is sealed if it is settled and has no bar outside of the brackets and strings in it
(`Text.Sealed`).  Texts that are sealed can be put together, and a text between brackets is sealed
if it is only settled.  `Draft.Sealed` says the same of drafts.
-/

set_option autoImplicit false

namespace TerseRuby

/-! ## Texts -/

/-- A settled text that has no bar outside of the brackets and strings in it. -/
structure Text.Sealed (o : Options) (t : Text) : Prop where
  /-- It is settled. -/
  settled : t.Settled o
  /-- It has no such bar. -/
  barless : Lexer.Barless (t.spell o)

namespace Text

variable {o : Options} {s t : Text}

theorem sealed_ofChars {cs : List Char} (h : Lexer.Closed cs) (hbars : Lexer.Barless cs) :
    (ofChars cs).Sealed o :=
  ⟨settled_ofChars h, by rwa [spell_ofChars]⟩

theorem Settled.sealed (h : t.Settled o) (hbars : '|' ∉ t.spell o) : t.Sealed o :=
  ⟨h, Lexer.barless_of_not_mem hbars⟩

theorem sealed_nil : Sealed o [] := settled_nil.sealed List.not_mem_nil

theorem Sealed.append (hs : s.Sealed o) (ht : t.Sealed o) : (s ++ t).Sealed o := by
  refine ⟨hs.settled.append ht.settled, ?_⟩
  rw [spell_append]
  exact hs.barless.append hs.settled.closed ht.barless

/-- Whether a text is one of plain characters that are no bars. -/
def isSmooth (text : String) : Bool := text.toList.all fun c => Lexer.isPlain c && c != '|'

theorem sealed_lit {text : String} (h : isSmooth text = true) : (lit text).Sealed o := by
  have hsmooth (c : Char) (hc : c ∈ text.toList) : Lexer.isPlain c = true ∧ (c != '|') = true :=
    Bool.and_eq_true_iff.mp (List.all_eq_true.mp h c hc)
  refine sealed_ofChars (Lexer.closed_of_isPlain fun c hc => (hsmooth c hc).1)
    (Lexer.barless_of_not_mem fun hbar => ?_)
  exact bne_iff_ne.mp (hsmooth _ hbar).2 rfl

theorem sealed_separator : Sealed o [.separator] := by
  refine settled_separator.sealed ?_
  simp only [spell, List.flatMap_cons, List.flatMap_nil, Glyph.spell, Options.separator]
  split <;> decide

/-- **Between brackets there may be bars.** -/
theorem Settled.sealed_between (h : t.Settled o) {opening closing : Char}
    (hopening : Lexer.isOpening opening = true) (hclosing : Lexer.isClosing closing = true) :
    (ofChars [opening] ++ t ++ ofChars [closing]).Sealed o := by
  refine ⟨h.between hopening hclosing, ?_⟩
  simp only [spell_append, spell_ofChars]
  exact Lexer.barless_between h.closed hopening hclosing

theorem sealed_grouped {needed : Bool} (h : t.Settled o) (hbare : needed = false → t.Sealed o) :
    (t.grouped needed).Sealed o := by
  cases needed with
  | true => exact h.sealed_between rfl rfl
  | false => exact hbare rfl

theorem composes_sealed : Composes (Sealed o) := ⟨sealed_nil, Sealed.append⟩

theorem sealed_commaSeparated {ts : List Text} (h : ∀ t ∈ ts, t.Sealed o) :
    (commaSeparated ts).Sealed o :=
  composes_sealed.commaSeparated (sealed_lit (by decide)) h

theorem sealed_joinInfix {leftIsSymbol : Bool} {operator : String}
    (hoperator : isSmooth operator = true) (hs : s.Sealed o) (ht : t.Sealed o) :
    (joinInfix leftIsSymbol s operator t).Sealed o :=
  composes_sealed.joinInfix (sealed_lit (by decide)) (sealed_lit hoperator) hs ht

theorem sealed_joinLabel (hs : s.Sealed o) (ht : t.Sealed o) : (joinLabel s t).Sealed o :=
  composes_sealed.joinLabel (sealed_lit (by decide)) hs ht

theorem sealed_equals : (equals t).Sealed o := by
  rw [equals]
  split <;> exact sealed_lit (by decide)

/-- There is at most a blank after a keyword. -/
theorem spell_keywordGap (o : Options) (t : Text) :
    Text.spell o t.keywordGap = [] ∨ Text.spell o t.keywordGap = [' '] := by
  rw [keywordGap]
  split
  · cases hblank : o.spaceAfterKeywords
    · exact .inl (by simp [spell, Glyph.spell, hblank])
    · exact .inr (by simp [spell, Glyph.spell, hblank])
  · exact .inr rfl

/-- A text after a keyword. -/
theorem sealed_afterKeyword {keyword : String} (hkeyword : isKeyword keyword = true)
    (hbar : '|' ∉ keyword.toList) (ht : t.Sealed o) :
    (lit keyword ++ t.keywordGap ++ t).Sealed o := by
  refine ⟨settled_afterKeyword hkeyword ht.settled, ?_⟩
  have hword : Lexer.Closed keyword.toList := by
    have hlit := (settled_keyword (o := o) hkeyword).closed
    rwa [lit, spell_ofChars] at hlit
  have hfront : Lexer.Closed (keyword.toList ++ Text.spell o t.keywordGap) ∧
      '|' ∉ keyword.toList ++ Text.spell o t.keywordGap := by
    obtain hgap | hgap := spell_keywordGap o t
    · rw [hgap, List.append_nil]
      exact ⟨hword, hbar⟩
    · rw [hgap]
      exact ⟨hword.append (Lexer.closed_of_isPlain (by decide)), by simp [hbar]⟩
  rw [spell_append, spell_append, lit, spell_ofChars]
  exact (Lexer.barless_of_not_mem hfront.2).append hfront.1 ht.barless

end Text

/-! ## Drafts -/

/-- If the draft has a text, then a sealed one. -/
def Draft.Sealed (o : Options) (d : Draft) : Prop := ∀ t, d.build = .ok t → t.Sealed o

namespace Draft

variable {o : Options} {d e : Draft} {t : Text}

/-- It is enough to look at the text. -/
theorem sealed_of_build (hbuild : d.build = .ok t) (h : t.Sealed o) : d.Sealed o := by
  intro u hu
  cases hbuild.symm.trans hu
  exact h

theorem sealed_of (h : t.Sealed o) : (of t).Sealed o := sealed_of_build (build_of t) h

theorem sealed_nil : Sealed o [] := Text.composes_sealed.build_nil

theorem Sealed.append (hd : d.Sealed o) (he : e.Sealed o) : (d ++ e).Sealed o :=
  Text.composes_sealed.build_append hd he

theorem sealed_lit {text : String} (h : Text.isSmooth text = true) : (lit text).Sealed o :=
  sealed_of (Text.sealed_lit h)

theorem sealed_separator : separator.Sealed o := sealed_of Text.sealed_separator

theorem sealed_ite {p : Prop} [Decidable p] (hd : d.Sealed o) : (if p then d else []).Sealed o :=
  Text.composes_sealed.build_ite hd

theorem sealed_flatten {ds : List Draft} (h : ∀ d ∈ ds, d.Sealed o) : Sealed o ds.flatten :=
  Text.composes_sealed.build_flatten h

/-- A name without a bar. -/
theorem sealed_word {v : Value} (h : v.IsWord)
    (hbar : ∀ text, v.text? = some text → '|' ∉ text.toList) : (word v).Sealed o := by
  unfold word
  split
  · rename_i text htext
    exact sealed_of (Text.sealed_ofChars (h text htext).closed
      (Lexer.barless_of_not_mem (hbar text htext)))
  · split
    · intro t ht
      cases ht
    · exact sealed_nil

/-- A draft between brackets. -/
theorem Settled.sealed_between (h : d.Settled o) {opening closing : Char}
    (hopening : Lexer.isOpening opening = true) (hclosing : Lexer.isClosing closing = true) :
    (of (Text.ofChars [opening]) ++ d ++ of (Text.ofChars [closing])).Sealed o := by
  intro t ht
  obtain ⟨_, _, hfront, hlast, rfl⟩ := (build_append_eq_ok_iff _ _ t).mp ht
  obtain ⟨_, u, hfirst, hu, rfl⟩ := (build_append_eq_ok_iff _ _ _).mp hfront
  cases (build_of _).symm.trans hfirst
  cases (build_of _).symm.trans hlast
  exact (h u hu).sealed_between hopening hclosing

theorem Settled.sealed_parenthesized (h : d.Settled o) : d.parenthesized.Sealed o :=
  h.sealed_between rfl rfl

theorem sealed_afterKeyword {keyword : String} (hkeyword : Text.isKeyword keyword = true)
    (hbar : '|' ∉ keyword.toList) (ht : t.Sealed o) :
    (lit keyword ++ afterKeyword t).Sealed o := by
  refine sealed_of_build (build_append (build_lit keyword)
    (build_append (build_of t.keywordGap) (build_of t))) ?_
  rw [← List.append_assoc]
  exact Text.sealed_afterKeyword hkeyword hbar ht

end Draft
end TerseRuby
