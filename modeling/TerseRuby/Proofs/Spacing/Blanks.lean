import TerseRuby.Proofs.Writing

/-!
# Blanks that may be left out

A blank that may be left out is a glyph of its own, and whether it is written gets decided when the
whole text is there.  A rule looks at the first or the last character of a text, and it would look
at the blank if the blank were written at once.  It never does, because such a blank stands at
neither end of a text that a rule looks at:

* `Text.isSolid`: every such blank is followed by a quote or a bar, so none stands at the end;
* `Text.IsSound`: moreover none stands at the beginning.

`Text.Agrees b` relates two sound texts that become the same once the blanks are written
(`b = true`) or left out (`b = false`); in the second some may be settled already.  What a rule asks
about two such texts has one answer, and what it makes of them agrees again.  `Draft.Agrees` is the
same for drafts without a foreign piece.
-/

set_option autoImplicit false

namespace TerseRuby

/-! ## Texts -/

/-- A glyph with its blank written or left out, if it is one that may be left out. -/
def Glyph.spaced (b : Bool) : Glyph → Text
  | .optionalBlank => if b then [.char ' '] else []
  | g => [g]

namespace Text

/-- A text with the blanks that may be left out written or left out. -/
def spaced (b : Bool) (t : Text) : Text := t.flatMap (Glyph.spaced b)

/-- Whether a blank before a character may be left out. -/
def mayFollowBlank (c : Char) : Bool := isQuote c || c == '|'

/-- Whether every blank that may be left out is followed by a character that allows it. -/
def isSolid : Text → Bool
  | [] => true
  | .optionalBlank :: rest => startsWith mayFollowBlank rest && isSolid rest
  | _ :: rest => isSolid rest

/-- A text with a character at its end, and at its beginning, where a blank might be left out. -/
structure IsSound (t : Text) : Prop where
  /-- The blanks that may be left out are followed by a character that allows it. -/
  solid : t.isSolid = true
  /-- The text does not begin with one of them. -/
  start : t.head? ≠ some .optionalBlank

/-! ### Sound texts -/

theorem startsWith_mono {p q : Char → Bool} (h : ∀ c, p c = true → q c = true) {t : Text}
    (ht : t.startsWith p = true) : t.startsWith q = true := by
  rcases t with _ | ⟨c | _ | _, t⟩
  · cases ht
  · exact h c ht
  · cases ht
  · cases ht

theorem startsWith_append {p : Char → Bool} {s : Text} (h : s.startsWith p = true) (t : Text) :
    (s ++ t).startsWith p = true := by
  cases s with
  | nil => cases h
  | cons g s => exact h

theorem isSolid_append {s t : Text} (hs : s.isSolid = true) (ht : t.isSolid = true) :
    (s ++ t).isSolid = true := by
  induction s with
  | nil => exact ht
  | cons g s ih =>
    cases g with
    | optionalBlank =>
      obtain ⟨hstart, hs⟩ := Bool.and_eq_true_iff.mp hs
      exact Bool.and_eq_true_iff.mpr ⟨startsWith_append hstart t, ih hs⟩
    | char c => exact ih hs
    | separator => exact ih hs

theorem IsSound.append {s t : Text} (hs : s.IsSound) (ht : t.IsSound) : (s ++ t).IsSound := by
  refine ⟨isSolid_append hs.solid ht.solid, ?_⟩
  cases s with
  | nil => exact ht.start
  | cons g s => exact hs.start

/-- A text in which no blank may be left out. -/
theorem isSound_of_forall_ne {t : Text} (h : ∀ g ∈ t, g ≠ .optionalBlank) : t.IsSound := by
  constructor
  · induction t with
    | nil => rfl
    | cons g t ih =>
      obtain ⟨hg, ht⟩ := List.forall_mem_cons.mp h
      cases g with
      | optionalBlank => exact absurd rfl hg
      | char c => exact ih ht
      | separator => exact ih ht
  · intro hstart
    exact h _ (List.mem_of_head? hstart) rfl

theorem isSound_ofChars (cs : List Char) : (ofChars cs).IsSound := by
  refine isSound_of_forall_ne fun g hg => ?_
  obtain ⟨c, _, rfl⟩ := List.mem_map.mp hg
  simp

/-- A blank before a text that begins with a quote or a bar, after something. -/
theorem IsSound.append_blank {s t : Text} (hs : s.IsSound) (hne : s ≠ []) (ht : t.IsSound)
    (hstart : t.startsWith mayFollowBlank = true) : (s ++ .optionalBlank :: t).IsSound := by
  refine ⟨isSolid_append hs.solid (Bool.and_eq_true_iff.mpr ⟨hstart, ht.solid⟩), ?_⟩
  cases s with
  | nil => exact absurd rfl hne
  | cons g s => exact hs.start

/-! ### Texts with their blanks settled -/

@[simp] theorem spaced_nil (b : Bool) : spaced b [] = [] := rfl

@[simp] theorem spaced_append (b : Bool) (s t : Text) :
    spaced b (s ++ t) = spaced b s ++ spaced b t :=
  List.flatMap_append

@[simp] theorem spaced_ofChars (b : Bool) (cs : List Char) :
    spaced b (ofChars cs) = ofChars cs := by
  induction cs with
  | nil => rfl
  | cons c cs ih => exact congrArg (Glyph.char c :: ·) ih

theorem ne_optionalBlank_of_mem_spaced {b : Bool} {t : Text} {g : Glyph} (hg : g ∈ spaced b t) :
    g ≠ .optionalBlank := by
  obtain ⟨g', _, hg⟩ := List.mem_flatMap.mp hg
  rcases g' with c | _ | _ <;> rcases b with _ | _ <;> simp_all [Glyph.spaced]

theorem isSound_spaced (b : Bool) (t : Text) : (spaced b t).IsSound :=
  isSound_of_forall_ne fun _ hg => ne_optionalBlank_of_mem_spaced hg

theorem spaced_eq_self {b : Bool} {t : Text} (h : ∀ g ∈ t, g ≠ .optionalBlank) :
    spaced b t = t := by
  induction t with
  | nil => rfl
  | cons g t ih =>
    obtain ⟨hg, ht⟩ := List.forall_mem_cons.mp h
    cases g with
    | optionalBlank => exact absurd rfl hg
    | char c => exact congrArg (Glyph.char c :: ·) (ih ht)
    | separator => exact congrArg (Glyph.separator :: ·) (ih ht)

@[simp] theorem spaced_spaced (b : Bool) (t : Text) : spaced b (spaced b t) = spaced b t :=
  spaced_eq_self fun _ hg => ne_optionalBlank_of_mem_spaced hg

/-- The first glyph of a sound text is there whether blanks are written or not. -/
theorem head?_spaced (b : Bool) {t : Text} (h : t.IsSound) : (spaced b t).head? = t.head? := by
  rcases t with _ | ⟨_ | _ | _, t⟩
  · rfl
  · rfl
  · rfl
  · exact absurd rfl h.start

/-- And so is the last glyph of a solid one. -/
theorem getLast?_spaced (b : Bool) {t : Text} (h : t.isSolid = true) :
    (spaced b t).getLast? = t.getLast? := by
  induction t with
  | nil => rfl
  | cons g t ih =>
    have hcons : spaced b (g :: t) = g.spaced b ++ spaced b t := rfl
    have ht : isSolid t = true := by
      cases g with
      | optionalBlank => exact (Bool.and_eq_true_iff.mp h).2
      | char c => exact h
      | separator => exact h
    rw [hcons, List.getLast?_append, ih ht]
    cases t with
    | nil =>
      cases g with
      | optionalBlank => cases h
      | char c => rfl
      | separator => rfl
    | cons g' t => simp [List.getLast?_cons]

theorem isEmpty_spaced (b : Bool) {t : Text} (h : t.isSolid = true) :
    (spaced b t).isEmpty = t.isEmpty := by
  have hlast := getLast?_spaced b h
  rw [Bool.eq_iff_iff, List.isEmpty_iff, List.isEmpty_iff, ← List.getLast?_eq_none_iff, hlast,
    List.getLast?_eq_none_iff]

/-! ## Texts that agree -/

/-- Two texts that become the same once the blanks that may be left out are written, or left out.
If `firm`, they are not empty. -/
structure Agrees (b firm : Bool) (t t' : Text) : Prop where
  /-- The first text is sound. -/
  before : t.IsSound
  /-- The second text is sound. -/
  after : t'.IsSound
  /-- They are the same, but for such blanks. -/
  same : spaced b t' = spaced b t
  /-- They have something in them. -/
  filled : firm = true → t ≠ []

namespace Agrees

variable {b firm firm' : Bool} {s s' t t' : Text}

theorem loosen (h : t.Agrees b firm t') : t.Agrees b false t' :=
  ⟨h.before, h.after, h.same, fun hfirm => by cases hfirm⟩

/-! ### What the rules ask -/

theorem isEmpty (h : t.Agrees b firm t') : t'.isEmpty = t.isEmpty := by
  rw [← isEmpty_spaced b h.after.solid, h.same, isEmpty_spaced b h.before.solid]

theorem startsWith (h : t.Agrees b firm t') (p : Char → Bool) :
    t'.startsWith p = t.startsWith p := by
  rw [Text.startsWith, Text.startsWith, ← head?_spaced b h.after, h.same, head?_spaced b h.before]

theorem endsWith (h : t.Agrees b firm t') (p : Char → Bool) : t'.endsWith p = t.endsWith p := by
  rw [Text.endsWith, Text.endsWith, ← getLast?_spaced b h.after.solid, h.same,
    getLast?_spaced b h.before.solid]

theorem equals (h : t.Agrees b firm t') : t'.equals = t.equals := by
  rw [Text.equals, Text.equals, h.startsWith]

theorem keywordGap (h : t.Agrees b firm t') : t'.keywordGap = t.keywordGap := by
  rw [Text.keywordGap, Text.keywordGap, h.startsWith, h.isEmpty]

/-! ### What the rules make -/

theorem append (hs : s.Agrees b firm s') (ht : t.Agrees b firm' t') :
    (s ++ t).Agrees b (firm || firm') (s' ++ t') := by
  refine ⟨hs.before.append ht.before, hs.after.append ht.after, ?_, fun hfirm hempty => ?_⟩
  · rw [spaced_append, spaced_append, hs.same, ht.same]
  · obtain ⟨hsempty, htempty⟩ := List.append_eq_nil_iff.mp hempty
    rcases Bool.or_eq_true_iff.mp hfirm with hfirm | hfirm
    · exact hs.filled hfirm hsempty
    · exact ht.filled hfirm htempty

/-- Between two texts a blank that may be left out, before a quote or a bar. -/
theorem append_blank (hs : s.Agrees b true s') (ht : t.Agrees b firm t')
    (hstart : t.startsWith mayFollowBlank = true) :
    (s ++ .optionalBlank :: t).Agrees b true (s' ++ .optionalBlank :: t') := by
  have hstart' : t'.startsWith mayFollowBlank = true := (ht.startsWith _).trans hstart
  have hcons (t : Text) : spaced b (.optionalBlank :: t) =
      Glyph.spaced b .optionalBlank ++ spaced b t := rfl
  have hne : s ≠ [] := hs.filled rfl
  have hne' : s' ≠ [] := by
    rw [← List.isEmpty_eq_false_iff, hs.isEmpty, List.isEmpty_eq_false_iff]
    exact hne
  refine ⟨hs.before.append_blank hne ht.before hstart, hs.after.append_blank hne' ht.after hstart',
    ?_, fun _ hempty => hne (List.append_eq_nil_iff.mp hempty).1⟩
  rw [spaced_append, spaced_append, hcons, hcons, hs.same, ht.same]

theorem parenthesized (h : t.Agrees b firm t') :
    t.parenthesized.Agrees b true t'.parenthesized := by
  refine ⟨((isSound_ofChars _).append h.before).append (isSound_ofChars _),
    ((isSound_ofChars _).append h.after).append (isSound_ofChars _), ?_, fun _ => by
      simp [Text.parenthesized, lit, ofChars]⟩
  simp [Text.parenthesized, lit, h.same]

theorem grouped (h : t.Agrees b firm t') (needed : Bool) :
    (t.grouped needed).Agrees b firm (t'.grouped needed) := by
  cases needed with
  | false => exact h
  | true => exact ⟨h.parenthesized.before, h.parenthesized.after, h.parenthesized.same,
      fun _ => h.parenthesized.filled rfl⟩

end Agrees

variable {b firm firm' : Bool}

theorem agrees_ofChars {cs : List Char} (h : cs ≠ []) :
    (ofChars cs).Agrees b true (ofChars cs) :=
  ⟨isSound_ofChars cs, isSound_ofChars cs, rfl, fun _ hempty => h (List.map_eq_nil_iff.mp hempty)⟩

theorem agrees_chars (cs : List Char) : (ofChars cs).Agrees b false (ofChars cs) :=
  ⟨isSound_ofChars cs, isSound_ofChars cs, rfl, fun hfirm => by cases hfirm⟩

theorem agrees_lit {s : String} (h : s ≠ "") : (lit s).Agrees b true (lit s) :=
  agrees_ofChars fun hempty => h (String.toList_eq_nil_iff.mp hempty)

theorem agrees_nil : Agrees b false ([] : Text) [] := agrees_chars []

theorem agrees_separator : Agrees b true [.separator] [.separator] :=
  ⟨⟨rfl, by simp⟩, ⟨rfl, by simp⟩, rfl, fun _ => by simp⟩

theorem agrees_equals (t : Text) : t.equals.Agrees b true t.equals := by
  rw [equals]
  split
  · exact agrees_lit (by decide)
  · exact agrees_lit (by decide)

namespace Agrees

variable {s s' t t' : Text}

theorem joinInfix (hs : s.Agrees b true s') (ht : t.Agrees b firm t') (leftIsSymbol : Bool)
    (operator : String) :
    (Text.joinInfix leftIsSymbol s operator t).Agrees b true
      (Text.joinInfix leftIsSymbol s' operator t') := by
  have hfuses : fuses leftIsSymbol s' operator = fuses leftIsSymbol s operator := by
    rw [fuses, fuses, hs.endsWith, hs.endsWith]
  rw [Text.joinInfix, Text.joinInfix, hfuses]
  split
  · exact ((hs.append (agrees_chars _)).append (agrees_chars _)).append ht
  · exact ((hs.append agrees_nil).append (agrees_chars _)).append ht

theorem joinLabel (hs : s.Agrees b true s') (ht : t.Agrees b firm t') :
    (Text.joinLabel s t).Agrees b true (Text.joinLabel s' t') := by
  rw [Text.joinLabel, Text.joinLabel, ht.startsWith]
  split
  · exact (hs.append (agrees_chars _)).append ht
  · exact (hs.append agrees_nil).append ht

end Agrees

/-- Texts with commas between them; if there are any, they are not empty. -/
theorem agrees_commaSeparated {ts ts' : List Text} (h : List.Forall₂ (Agrees b firm) ts ts') :
    (commaSeparated ts).Agrees b (firm && !ts.isEmpty) (commaSeparated ts') := by
  rw [commaSeparated, commaSeparated]
  induction h with
  | nil => rw [List.isEmpty_nil, Bool.not_true, Bool.and_false]; exact agrees_nil
  | @cons t t' ts ts' ht hrest ih =>
    rw [List.isEmpty_cons, Bool.not_false, Bool.and_true]
    cases hrest with
    | nil => simpa using ht
    | cons hu hrest =>
      rw [List.intercalate_cons_cons, List.intercalate_cons_cons]
      have hall := (ht.append (agrees_chars ",".toList)).append ih
      exact ⟨hall.before, hall.after, hall.same, fun hfirm hempty =>
        ht.filled hfirm (by simp_all)⟩

end Text

/-! ## Drafts -/

/-- A piece with its blanks settled. -/
def Piece.spaced (b : Bool) : Piece → Piece
  | .text t => .text (t.spaced b)
  | .foreign typeName => .foreign typeName

/-- Whether a value can be written as it stands in the tree. -/
def Value.isWord (v : Value) : Bool := v.text?.isSome || !v.isTrue

/-- Whether a value is a text that is not empty. -/
def Value.isName (v : Value) : Bool := v.text?.any (· != "")

namespace Draft

variable {b firm firm' : Bool}

/-- A draft with its blanks settled. -/
def spaced (b : Bool) (d : Draft) : Draft := d.map (Piece.spaced b)

theorem build_spaced {d : Draft} {t : Text} (h : d.build = .ok t) :
    (spaced b d).build = .ok (t.spaced b) := by
  induction d generalizing t with
  | nil =>
    cases h
    rfl
  | cons piece d ih =>
    cases piece with
    | foreign typeName => cases h
    | text s =>
      obtain ⟨u, hu, rfl⟩ := (build_text_cons_eq_ok_iff s d t).mp h
      exact (build_text_cons_eq_ok_iff _ _ _).mpr ⟨_, ih hu, Text.spaced_append b s u⟩

/-- Two drafts whose texts agree. -/
def Agrees (b firm : Bool) (d d' : Draft) : Prop :=
  ∃ t t', d.build = .ok t ∧ d'.build = .ok t' ∧ t.Agrees b firm t'

theorem agrees_of {t t' : Text} (h : t.Agrees b firm t') : (of t).Agrees b firm (of t') :=
  ⟨t, t', build_of t, build_of t', h⟩

theorem agrees_nil : Agrees b false [] [] := ⟨[], [], rfl, rfl, Text.agrees_nil⟩

theorem agrees_lit {s : String} (h : s ≠ "") : (lit s).Agrees b true (lit s) :=
  agrees_of (Text.agrees_lit h)

theorem agrees_string (s : String) : (lit s).Agrees b false (lit s) :=
  agrees_of (Text.agrees_chars _)

theorem agrees_separator : separator.Agrees b true separator := agrees_of Text.agrees_separator

theorem agrees_word {v : Value} (h : v.isWord = true) : (word v).Agrees b false (word v) := by
  rw [word]
  split
  · exact agrees_string _
  · rename_i hnone
    rw [Value.isWord, hnone, Option.isSome_none, Bool.false_or, Bool.not_eq_true'] at h
    rw [if_neg (by simp [h])]
    exact agrees_nil

theorem agrees_name {v : Value} (h : v.isName = true) : (word v).Agrees b true (word v) := by
  obtain ⟨s, hs, hne⟩ := (Option.any_eq_true _ _).mp h
  rw [word, hs]
  exact agrees_lit (by simpa using hne)

namespace Agrees

variable {d d' e e' : Draft}

theorem loosen (h : d.Agrees b firm d') : d.Agrees b false d' := by
  obtain ⟨t, t', ht, ht', h⟩ := h
  exact ⟨t, t', ht, ht', h.loosen⟩

theorem append (hd : d.Agrees b firm d') (he : e.Agrees b firm' e') :
    (d ++ e).Agrees b (firm || firm') (d' ++ e') := by
  obtain ⟨s, s', hs, hs', hd⟩ := hd
  obtain ⟨t, t', ht, ht', he⟩ := he
  exact ⟨s ++ t, s' ++ t', build_append hs ht, build_append hs' ht', hd.append he⟩

theorem parenthesized (h : d.Agrees b firm d') :
    d.parenthesized.Agrees b true d'.parenthesized :=
  ((agrees_lit (by decide)).append h).append (agrees_lit (by decide))

theorem grouped (h : d.Agrees b true d') (needed : Bool) :
    (d.grouped needed).Agrees b true (d'.grouped needed) := by
  cases needed with
  | false => exact h
  | true => exact h.parenthesized

/-- Between two drafts a blank that may be left out, before a quote or a bar. -/
theorem append_blank (hd : d.Agrees b true d') {t t' : Text} (he : e.build = .ok t)
    (he' : e'.build = .ok t') (ht : t.Agrees b firm t')
    (hstart : t.startsWith Text.mayFollowBlank = true) :
    (d ++ (of [.optionalBlank] ++ e)).Agrees b true (d' ++ (of [.optionalBlank] ++ e')) := by
  obtain ⟨s, s', hs, hs', hd⟩ := hd
  exact ⟨_, _, build_append hs (build_append (build_of _) he),
    build_append hs' (build_append (build_of _) he'), hd.append_blank ht hstart⟩

/-- A text after a keyword.  The blank before it may be left out only if the text begins with a
quote. -/
theorem afterKeyword (hd : d.Agrees b true d') {t t' : Text} (ht : t.Agrees b true t') :
    (d ++ Draft.afterKeyword t).Agrees b true (d' ++ Draft.afterKeyword t') := by
  rw [Draft.afterKeyword, Draft.afterKeyword, ht.keywordGap, Text.keywordGap,
    List.isEmpty_eq_false_iff.mpr (ht.filled rfl), Bool.false_or]
  split
  · rename_i hquote
    exact hd.append_blank (build_of t) (build_of t') ht
      (Text.startsWith_mono (fun c hc => by simp [Text.mayFollowBlank, hc]) hquote)
  · exact hd.append ((agrees_of (Text.agrees_chars [' '])).append (agrees_of ht))

theorem assigned {t t' : Text} (ht : t.Agrees b firm t') :
    (Draft.assigned t).Agrees b true (Draft.assigned t') := by
  rw [Draft.assigned, Draft.assigned, ht.equals]
  exact (agrees_of (Text.agrees_equals t)).append (agrees_of ht)

/-- The second draft may settle its blanks. -/
theorem spaced (h : d.Agrees b firm d') : d.Agrees b firm (d'.spaced b) := by
  obtain ⟨t, t', ht, ht', h⟩ := h
  refine ⟨t, t'.spaced b, ht, build_spaced ht', h.before, Text.isSound_spaced b t', ?_, h.filled⟩
  rw [Text.spaced_spaced, h.same]

end Agrees

theorem agrees_flatten {ds ds' : List Draft} (h : List.Forall₂ (Agrees b false) ds ds') :
    Agrees b false ds.flatten ds'.flatten := by
  induction h with
  | nil => exact agrees_nil
  | cons hd _ ih => exact hd.append ih

end Draft
end TerseRuby
