import TerseRuby.Proofs.Literal.Spelling
import TerseRuby.Proofs.Tokens.Beginning

/-!
# Texts without blanks at their ends

The shortest text of a file has no blank and no separator before its first character or after its
last one.  Both characters come from deep inside the tree: the first from the left edge of the first
statement, the last from the right edge of the last one.  So the property has to be one of every
expression.

A character is *ink* if it is neither white space nor the mark between two statements
(`Lexer.isInk`).  A text is *trimmed* if it begins and ends with ink (`Text.IsTrimmed`), and a draft
is if its text is.  How a text begins is the matter of `Proofs/Tokens/Beginning.lean`; here is how
it ends, and how the operations that rules are written with bear on both:

* what is written behind ends the text, whatever comes before it;
* an operator, a label, a keyword or an equals sign leaves the end to the operand behind it;
* parentheses, and words and numbers of nothing but ink, are trimmed by themselves.
-/

set_option autoImplicit false

namespace TerseRuby

/-! ## Characters -/

namespace CharClass

/-- The characters that are white space. -/
def spaces : List Char :=
  ['\t', '\n', '\x0b', '\x0c', '\r', '\x1c', '\x1d', '\x1e', '\x1f', ' ', '\u0085', '\u00a0',
    '\u1680', '\u2000', '\u2001', '\u2002', '\u2003', '\u2004', '\u2005', '\u2006', '\u2007',
    '\u2008', '\u2009', '\u200a', '\u2028', '\u2029', '\u202f', '\u205f', '\u3000']

/-- Whether a character is white space. -/
def isSpace (c : Char) : Bool := spaces.contains c

end CharClass

namespace Lexer

/-- Whether a character is neither white space nor the mark between two statements. -/
def isInk (c : Char) : Bool := c != ';' && !CharClass.isSpace c

-- the table of letters is gone through up to the last of these characters
set_option maxRecDepth 4000 in
theorem isWord_eq_false : ∀ c ∈ ';' :: CharClass.spaces, CharClass.isWord c = false := by
  decide

theorem isInk_of_isWord {c : Char} (h : CharClass.isWord c = true) : isInk c = true := by
  have hnot : c ∉ ';' :: CharClass.spaces := by
    intro hc
    rw [isWord_eq_false c hc] at h
    cases h
  simpa [isInk, CharClass.isSpace, not_or] using hnot

theorem isInk_of_isStart {c : Char} (h : isStart c = true) : isInk c = true := by
  have hmarks : ∀ d ∈ "@$\"':([\x7b-+!~".toList, isInk d = true := by decide
  obtain hword | hmark := Bool.or_eq_true_iff.mp h
  · exact isInk_of_isWord hword
  · exact hmarks c (List.contains_iff_mem.mp hmark)

theorem isInk_of_isOrdinary {c : Char} (h : isOrdinary c = true) : isInk c = true :=
  isInk_of_isStart (Bool.and_eq_true_iff.mp (Bool.and_eq_true_iff.mp h).1).1

theorem isInk_of_isContinuation {c : Char} (h : Spelling.isContinuation c = true) :
    isInk c = true := by
  have hmarks : ∀ d ∈ "?!=@[]*+-/%~^&|<>".toList, isInk d = true := by decide
  obtain hword | hmark := Bool.or_eq_true_iff.mp h
  · exact isInk_of_isWord hword
  · exact hmarks c (List.contains_iff_mem.mp hmark)

theorem isInk_of_subset {text : List Char} (h : text ⊆ literalChars) :
    ∀ c ∈ text, isInk c = true := by
  have hliteral : ∀ d ∈ literalChars, isInk d = true := by decide
  exact fun c hc => hliteral c (h hc)

/-- A floating-point number is spelled without blanks. -/
theorem isInk_rubyText (x : Double) : ∀ c ∈ NumberFormat.ruby.text x, isInk c = true := by
  cases x with
  | nan => decide
  | infinity negative => cases negative <;> decide
  | finite negative exponent fraction =>
    rw [NumberFormat.text, ← NumberFormat.chars_numeral]
    exact isInk_of_subset
      (chars_subset (NumberFormat.isProper_numeral_shortest _ negative exponent fraction) _)

/-- A bare symbol is spelled without blanks. -/
theorem isInk_bareSymbol {text : List Char} (h : text ∈ Spelling.bareSymbol) :
    ∀ c ∈ text, isInk c = true := by
  obtain ⟨c, rest, rfl, hc, hrest⟩ := Spelling.exists_cons_of_mem_bareSymbol h
  refine List.forall_mem_cons.mpr ⟨?_, fun d hd => isInk_of_isContinuation (hrest d hd)⟩
  obtain hc | rfl := hc
  · exact isInk_of_isContinuation hc
  · decide

end Lexer

open Lexer (isInk)

namespace Value

/-- Whether a value is a name of nothing but ink. -/
def isInked (v : Value) : Bool := v.isName && v.text?.all fun text => text.toList.all isInk

theorem exists_text_of_isInked {v : Value} (h : v.isInked = true) :
    ∃ text, v.text? = some text ∧ text.toList ≠ [] ∧ ∀ c ∈ text.toList, isInk c = true := by
  obtain ⟨hname, hink⟩ := Bool.and_eq_true_iff.mp h
  obtain ⟨text, htext, hne⟩ := (Option.any_eq_true _ _).mp hname
  rw [htext] at hink
  refine ⟨text, htext, fun hempty => ?_, List.all_eq_true.mp hink⟩
  exact bne_iff_ne.mp hne (String.toList_eq_nil_iff.mp hempty)

theorem beginsWord_of_isInked {v : Value} (h : v.isInked = true) : v.BeginsWord isInk := by
  obtain ⟨text, htext, hne, hink⟩ := exists_text_of_isInked h
  refine ⟨text, htext, ?_⟩
  obtain ⟨c, rest, hcons⟩ := List.exists_cons_of_ne_nil hne
  rw [hcons]
  exact hink c (hcons ▸ List.mem_cons_self)

end Value

/-! ## Texts -/

namespace Text

/-- The last character is ink. -/
def EndsInInk (t : Text) : Prop := t.endsWith isInk = true

/-- The first and the last character are ink. -/
structure IsTrimmed (t : Text) : Prop where
  /-- The first character. -/
  start : t.BeginsWith isInk
  /-- The last character. -/
  stop : t.EndsInInk

variable {s t : Text}

theorem EndsInInk.behind (h : t.EndsInInk) (s : Text) : EndsInInk (s ++ t) := by
  cases t with
  | nil => cases h
  | cons glyph t =>
    rw [EndsInInk, endsWith, List.getLast?_append_of_ne_nil _ (List.cons_ne_nil _ _)]
    exact h

theorem endsInInk_ofChars {cs : List Char} (h : cs.getLast?.any isInk = true) :
    (ofChars cs).EndsInInk := by
  rw [EndsInInk, endsWith, ofChars, List.getLast?_map]
  cases hlast : cs.getLast? with
  | none =>
    rw [hlast] at h
    cases h
  | some c =>
    rw [hlast] at h
    exact h

theorem endsInInk_concat (cs : List Char) {c : Char} (h : isInk c = true) :
    (ofChars (cs ++ [c])).EndsInInk :=
  endsInInk_ofChars (by rwa [List.getLast?_concat])

theorem isTrimmed_ofChars {cs : List Char} (hne : cs ≠ []) (h : ∀ c ∈ cs, isInk c = true) :
    (ofChars cs).IsTrimmed := by
  constructor
  · obtain ⟨c, rest, rfl⟩ := List.exists_cons_of_ne_nil hne
    exact h c List.mem_cons_self
  · refine endsInInk_ofChars ?_
    rw [List.getLast?_eq_some_getLast hne]
    exact h _ (List.getLast_mem hne)

theorem isTrimmed_append (hs : s.BeginsWith isInk) (ht : t.EndsInInk) : IsTrimmed (s ++ t) :=
  ⟨hs.append t, ht.behind s⟩

theorem isTrimmed_parenthesized (t : Text) : t.parenthesized.IsTrimmed := by
  have hopen : (lit "(").BeginsWith isInk := (by decide : isInk '(' = true)
  have hclose : (lit ")").EndsInInk := endsInInk_ofChars (by decide)
  exact isTrimmed_append (hopen.append t) hclose

theorem IsTrimmed.grouped (h : t.IsTrimmed) (needed : Bool) : (t.grouped needed).IsTrimmed := by
  cases needed with
  | false => exact h
  | true => exact isTrimmed_parenthesized t

/-- Texts with commas between them end like the last of them. -/
theorem endsInInk_commaSeparated {ts : List Text} (hne : ts ≠ [])
    (h : ∀ t ∈ ts, t.EndsInInk) : (commaSeparated ts).EndsInInk := by
  rw [commaSeparated]
  induction ts with
  | nil => exact absurd rfl hne
  | cons t rest ih =>
    cases rest with
    | nil => simpa using h t List.mem_cons_self
    | cons u rest =>
      rw [List.intercalate_cons_cons]
      exact (ih (by simp) fun v hv => h v (List.mem_cons_of_mem _ hv)).behind _

theorem EndsInInk.joinInfix (h : t.EndsInInk) (leftIsSymbol : Bool) (left : Text)
    (operator : String) : (Text.joinInfix leftIsSymbol left operator t).EndsInInk :=
  h.behind _

theorem EndsInInk.joinLabel (h : t.EndsInInk) (label : Text) :
    (Text.joinLabel label t).EndsInInk :=
  h.behind _

end Text

/-! ## Drafts -/

namespace Draft

/-- If the draft has a text, then one whose last character is ink. -/
def EndsInInk (d : Draft) : Prop := ∀ t, d.build = .ok t → t.EndsInInk

/-- If the draft has a text, then a trimmed one. -/
def IsTrimmed (d : Draft) : Prop := ∀ t, d.build = .ok t → t.IsTrimmed

variable {d e : Draft} {t : Text}

theorem IsTrimmed.start (h : d.IsTrimmed) : d.BeginsWith isInk := fun t ht => (h t ht).start

theorem IsTrimmed.stop (h : d.IsTrimmed) : d.EndsInInk := fun t ht => (h t ht).stop

theorem isTrimmed_iff : d.IsTrimmed ↔ d.BeginsWith isInk ∧ d.EndsInInk :=
  ⟨fun h => ⟨h.start, h.stop⟩, fun h t ht => ⟨h.1 t ht, h.2 t ht⟩⟩

theorem endsInInk_of (h : t.EndsInInk) : (of t).EndsInInk := by
  intro u hu
  cases (build_of t).symm.trans hu
  exact h

theorem isTrimmed_of (h : t.IsTrimmed) : (of t).IsTrimmed :=
  isTrimmed_iff.mpr ⟨beginsWith_of h.start, endsInInk_of h.stop⟩

theorem endsInInk_lit {text : String} (h : text.toList.getLast?.any isInk = true) :
    (lit text).EndsInInk :=
  endsInInk_of (Text.endsInInk_ofChars h)

theorem EndsInInk.behind (h : e.EndsInInk) (d : Draft) : EndsInInk (d ++ e) := by
  intro t ht
  obtain ⟨u, v, -, hv, rfl⟩ := (build_append_eq_ok_iff d e t).mp ht
  exact (h v hv).behind u

/-- What is written behind a draft may be nothing. -/
theorem EndsInInk.before (h : d.EndsInInk) (he : e = [] ∨ e.EndsInInk) : EndsInInk (d ++ e) := by
  obtain rfl | he := he
  · rwa [List.append_nil]
  · exact he.behind d

theorem isTrimmed_append (hd : d.BeginsWith isInk) (he : e.EndsInInk) : IsTrimmed (d ++ e) :=
  isTrimmed_iff.mpr ⟨hd.append e, he.behind d⟩

theorem isTrimmed_lit {text : String} (hstart : text.toList.head?.any isInk = true)
    (hstop : text.toList.getLast?.any isInk = true) : (lit text).IsTrimmed :=
  isTrimmed_iff.mpr ⟨beginsWith_lit hstart, endsInInk_lit hstop⟩

theorem isTrimmed_parenthesized (d : Draft) : d.parenthesized.IsTrimmed :=
  isTrimmed_append ((beginsWith_lit (by decide)).append d) (endsInInk_lit (by decide))

theorem EndsInInk.grouped (h : d.EndsInInk) (needed : Bool) : (d.grouped needed).EndsInInk := by
  cases needed with
  | false => exact h
  | true => exact (isTrimmed_parenthesized d).stop

/-- A blank after a keyword is never at the end. -/
theorem endsInInk_afterKeyword (h : t.EndsInInk) : (afterKeyword t).EndsInInk :=
  (endsInInk_of h).behind _

theorem endsInInk_assigned (h : t.EndsInInk) : (assigned t).EndsInInk := (endsInInk_of h).behind _

/-- A name of nothing but ink. -/
theorem isTrimmed_word {v : Value} (h : v.isInked = true) : (word v).IsTrimmed := by
  obtain ⟨text, htext, hne, hink⟩ := Value.exists_text_of_isInked h
  rw [word, htext]
  exact isTrimmed_of (Text.isTrimmed_ofChars hne hink)

end Draft

/-! ## Writers and renditions -/

namespace Writer

/-- What is written, if it has a text, ends in ink. -/
def EndsInInk (w : Writer Draft) : Prop := w.Ensures (fun _ => True) Draft.EndsInInk

/-- What is written, if it has a text, is trimmed. -/
def IsTrimmed (w : Writer Draft) : Prop := w.Ensures (fun _ => True) Draft.IsTrimmed

theorem IsTrimmed.start {w : Writer Draft} (h : w.IsTrimmed) : w.BeginsWith isInk :=
  Ensures.imp h fun _ hd => hd.start

theorem isTrimmed_of {w : Writer Draft} (hstart : w.BeginsWith isInk) (hstop : w.EndsInInk) :
    w.IsTrimmed :=
  fun s l d l' hl hrun => ⟨trivial, Draft.isTrimmed_iff.mpr
    ⟨(hstart s l d l' hl hrun).2, (hstop s l d l' hl hrun).2⟩⟩

/-- A text that is written as a draft of its own. -/
theorem endsInInk_map {w : Writer Text} (h : w.Ensures (fun _ => True) Text.EndsInInk) :
    (Draft.of <$> w).EndsInInk :=
  Ensures.map h fun _ ht => Draft.endsInInk_of ht

variable {α : Type}

/-- Of something, something is written. -/
theorem ensures_mapM_ne_nil {γ : Type} {Q : α → Prop} {xs : List γ} {f : γ → Writer α}
    (hne : xs ≠ []) (h : ∀ x ∈ xs, (f x).Ensures (fun _ => True) Q) :
    (xs.mapM f).Ensures (fun _ => True) fun as => as ≠ [] ∧ ∀ a ∈ as, Q a := by
  cases xs with
  | nil => exact absurd rfl hne
  | cons x xs =>
    rw [List.forall_mem_cons] at h
    rw [List.mapM_cons]
    exact h.1.bind fun a ha => (ensures_mapM h.2).bind fun as has =>
      ensures_pure ⟨List.cons_ne_nil a as, List.forall_mem_cons.mpr ⟨ha, has⟩⟩

end Writer
end TerseRuby
