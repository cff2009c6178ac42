import TerseRuby.Proofs.Number.Numeral
import TerseRuby.Proofs.Tokens.Lexer
import TerseRuby.Proofs.Tree.Shape

/-!
# Tokens of literals

The texts of literals are closed: a number has plain characters only, a string ends at its own
quote, whatever is in it, and a slot of a string ends at its own brace.
-/

set_option autoImplicit false

namespace TerseRuby
namespace Lexer

/-! ## Labels -/

/-- After a word character a colon ends a label. -/
theorem afterColon_afterWord (m : Mode) (c : Char) : (m.afterWord c).afterColon = .label := by
  unfold Mode.afterWord
  split <;> first | rfl | (split <;> rfl)

theorem feed_isWord {m : Mode} (hm : m.isSettled = true) (frames : List Frame) {c : Char}
    (hc : CharClass.isWord c = true) : feed ⟨m, frames⟩ c = ⟨m.afterWord c, frames⟩ := by
  rw [feed_of_isSettled hm, feedCode_of_isPlain (isPlain_of_isWord hc), Mode.next, if_pos hc]

/-- A name that ends in a word character, as a label. -/
theorem closed_label {text : List Char} {c : Char} (htext : Closed text)
    (hc : CharClass.isWord c = true) : Closed (text ++ [c] ++ [':']) := by
  intro m frames hm
  obtain ⟨m', hm', hread⟩ := htext m frames hm
  refine ⟨.label, rfl, ?_⟩
  rw [feedAll_append, feedAll_append, hread]
  change feed (feed ⟨m', frames⟩ c) ':' = _
  rw [feed_isWord hm' frames hc, feed_colon (.inl isSettled_afterWord), afterColon_afterWord]

theorem closed_label_of_isIdentifier {text : List Char} (h : Literal.isIdentifier text = true) :
    Closed (text ++ [':']) := by
  have hword : ∀ c ∈ text, CharClass.isWord c = true := by
    cases text with
    | nil => exact List.forall_mem_nil _
    | cons c rest =>
      obtain ⟨hc, hrest⟩ := Bool.and_eq_true_iff.mp h
      exact List.forall_mem_cons.mpr
        ⟨(Bool.and_eq_true_iff.mp hc).1, fun d hd => List.all_eq_true.mp hrest d hd⟩
  rcases List.eq_nil_or_concat text with rfl | ⟨init, c, rfl⟩
  · cases h
  · rw [List.concat_eq_append, List.forall_mem_append, List.forall_mem_singleton] at hword
    rw [List.concat_eq_append]
    exact closed_label (closed_of_isPlain fun d hd => isPlain_of_isWord (hword.1 d hd)) hword.2

theorem closed_label_of_isVariable {text : List Char} (h : isVariable text = true) :
    Closed (text ++ [':']) := by
  have hat : Closed ['@'] := closed_of_isPlain (by decide)
  unfold isVariable at h
  split at h
  · exact hat.append (hat.append (closed_label_of_isIdentifier h))
  · exact hat.append (closed_label_of_isIdentifier h)
  · rename_i c rest
    rw [List.all_eq_true] at h
    rcases List.eq_nil_or_concat rest with rfl | ⟨init, d, rfl⟩
    · intro m frames hm
      refine ⟨.label, rfl, ?_⟩
      change feed (feed (feed ⟨m, frames⟩ '$') c) ':' = _
      rw [feed_dollar (.inl hm)]
      rfl
    · rw [List.concat_eq_append] at h ⊢
      rw [List.forall_mem_append, List.forall_mem_singleton] at h
      exact closed_label (closedName_global c h.1).closed h.2
  · cases h

/-! ## Numbers -/

/-- The characters that numerals and truth values are made of. -/
def literalChars : List Char := "0123456789-+.TrueFals".toList

theorem isPlain_of_mem_literalChars : ∀ c ∈ literalChars, isPlain c = true := by
  decide

theorem closed_of_subset {text : List Char} (h : text ⊆ literalChars) : Closed text :=
  closed_of_isPlain fun c hc => isPlain_of_mem_literalChars c (h hc)

theorem mem_literalChars_of_isDigit {c : Char} (h : Decimal.isDigit c = true) :
    c ∈ literalChars :=
  Decimal.forall_isDigit (P := fun c => c ∈ literalChars) (by decide) h

theorem intText_subset (n : Int) : Decimal.intText n ⊆ literalChars := by
  cases n with
  | ofNat n => exact fun c hc => mem_literalChars_of_isDigit (Decimal.isDigit_of_mem_natText hc)
  | negSucc n =>
    refine List.cons_subset.mpr ⟨by decide, fun c hc => ?_⟩
    exact mem_literalChars_of_isDigit (Decimal.isDigit_of_mem_natText hc)

theorem signed_subset {negative : Bool} {text : List Char} (h : text ⊆ literalChars) :
    NumberFormat.signed negative text ⊆ literalChars := by
  rw [NumberFormat.signed]
  split
  · exact List.cons_subset.mpr ⟨by decide, h⟩
  · exact h

theorem run_subset {digits : List Char} (h : Decimal.Numeral.IsRun digits) :
    digits ⊆ literalChars :=
  fun c hc => mem_literalChars_of_isDigit (h.2 c hc)

/-- The characters of a numeral are digits, a point, a letter and signs. -/
theorem chars_subset {n : Decimal.Numeral} (h : n.IsProper) (plusSign : Bool) :
    n.chars plusSign ⊆ literalChars := by
  refine signed_subset ?_
  rw [Decimal.Numeral.unsignedChars, List.append_subset, List.append_subset]
  refine ⟨run_subset h.whole, ?_, ?_⟩
  · cases hfraction : n.fraction with
    | none => exact List.nil_subset _
    | some digits =>
      exact List.cons_subset.mpr ⟨by decide, run_subset (h.fraction digits hfraction)⟩
  · cases hexponent : n.exponent with
    | none => exact List.nil_subset _
    | some e =>
      have hdigits := run_subset (h.exponent e hexponent)
      obtain ⟨negative, digits⟩ := e
      cases negative
      · rw [Decimal.Numeral.exponentChars]
        split
        · exact List.cons_subset.mpr ⟨by decide, List.cons_subset.mpr ⟨by decide, hdigits⟩⟩
        · exact List.cons_subset.mpr ⟨by decide, hdigits⟩
      · exact List.cons_subset.mpr ⟨by decide, List.cons_subset.mpr ⟨by decide, hdigits⟩⟩

/-- A constant of the standard library. -/
theorem closed_constant (front back : List Char) (hfront : ∀ c ∈ front, isPlain c = true)
    (hback : back ≠ [] ∧ ∀ c ∈ back, isPlain c = true) :
    Closed (front ++ ':' :: ':' :: back) :=
  (closed_of_isPlain hfront).append (ClosedName.of_isPlain hback.1 hback.2).inNamespace

theorem closed_rubyText (x : Double) : Closed (NumberFormat.ruby.text x) := by
  cases x with
  | nan => exact closed_constant "Float".toList "NAN".toList (by decide) (by decide)
  | infinity negative =>
    have hinfinity : Closed "Float::INFINITY".toList :=
      closed_constant "Float".toList "INFINITY".toList (by decide) (by decide)
    have hsign : Closed ['-'] := closed_of_isPlain (by decide)
    rw [NumberFormat.text, NumberFormat.signed]
    split
    · exact hsign.append hinfinity
    · exact hinfinity
  | finite negative exponent fraction =>
    rw [NumberFormat.text, ← NumberFormat.chars_numeral]
    exact closed_of_subset
      (chars_subset (NumberFormat.isProper_numeral_shortest _ negative exponent fraction) _)

/-- Truth values and integers. -/
theorem display_subset {s : Scalar} (h : s.whole?.isSome = true) :
    s.display.toList ⊆ literalChars := by
  cases s with
  | bool b => cases b <;> decide
  | int n =>
    rw [Scalar.display, String.toList_ofList]
    exact intText_subset n
  | _ => cases h

theorem closed_float {s : Scalar} {text : List Char} (h : Literal.float s = .ok text) :
    Closed text := by
  unfold Literal.float at h
  split at h
  · cases h
    exact closed_rubyText _
  · split at h
    · rename_i n hn
      split at h
      · cases h
        refine closed_of_subset fun c hc => display_subset (by rw [hn]; rfl) ?_
        exact (List.takeWhile_sublist _).subset hc
      · cases h
    · cases h

/-! ## Strings -/

/-- Inside a double-quoted string, where the next character opens no slot. -/
def InString (frames : List Frame) (next : List Char) (s : State) : Prop :=
  s = ⟨.quoted, frames⟩ ∨ (s = ⟨.quotedSign, frames⟩ ∧ next.head? ≠ some '\x7b')

/-- Where no slot is opened, a number sign does not matter. -/
theorem feed_of_inString {frames : List Frame} {c : Char} {rest : List Char} {s : State}
    (h : InString frames (c :: rest) s) : feed s c = feedQuoted frames c := by
  obtain rfl | ⟨rfl, hc⟩ := h
  · rfl
  · have hne : c ≠ '\x7b' := fun heq => hc (by rw [heq]; rfl)
    simp [feed, hne]

/-- A character that means itself inside a double-quoted string. -/
def isLiteral (c : Char) : Bool := c != '"' && c != '\\' && c != '#'

theorem feedQuoted_of_isLiteral {c : Char} (h : isLiteral c = true) (frames : List Frame) :
    feedQuoted frames c = ⟨.quoted, frames⟩ := by
  simp only [isLiteral, Bool.and_eq_true, bne_iff_ne] at h
  simp [feedQuoted, h.1.1, h.1.2, h.2]

theorem feedAll_of_isLiteral {text : List Char} (h : ∀ c ∈ text, isLiteral c = true)
    (frames : List Frame) : feedAll ⟨.quoted, frames⟩ text = ⟨.quoted, frames⟩ := by
  induction text with
  | nil => rfl
  | cons c text ih =>
    rw [List.forall_mem_cons] at h
    change feedAll (feedQuoted frames c) text = _
    rw [feedQuoted_of_isLiteral h.1, ih h.2]

/-- An escape leaves the string open.  A number sign is left bare only where what comes next opens
no slot. -/
theorem feedAll_escapeChar (frames : List Frame) (c : Char) (next : List Char) :
    feedAll ⟨.quoted, frames⟩ (Literal.escapeChar c next) = ⟨.quoted, frames⟩ ∨
      (feedAll ⟨.quoted, frames⟩ (Literal.escapeChar c next) = ⟨.quotedSign, frames⟩ ∧
        Literal.interpolationOpeners.contains next = false) := by
  rw [Literal.escapeChar]
  split
  · exact .inl rfl
  split
  · exact .inl rfl
  split
  · exact .inl rfl
  split
  · split
    · exact .inl rfl
    · rename_i hnext
      exact .inr ⟨rfl, Bool.eq_false_iff.mpr hnext⟩
  rename_i hbackslash hquote _ hsign
  split
  · exact .inl (feedAll_of_isLiteral (Hex.forall_mem_fixed (by decide)) frames)
  · refine .inl (feedAll_of_isLiteral (List.forall_mem_singleton.mpr ?_) frames)
    simp_all [isLiteral]

theorem feedAll_of_inString {frames : List Frame} {text next : List Char} {s : State}
    (hne : text ≠ []) (h : InString frames (text ++ next) s) :
    feedAll s text = feedAll ⟨.quoted, frames⟩ text := by
  cases text with
  | nil => exact absurd rfl hne
  | cons c text =>
    rw [feedAll_cons, feedAll_cons, feed_of_inString h]
    rfl

theorem escapeChar_ne_nil (c : Char) (next : List Char) : Literal.escapeChar c next ≠ [] := by
  intro h
  obtain hhead | hhead := Scanner.head?_escapeChar c next
  · rw [h] at hhead
    cases hhead
  · rw [h] at hhead
    cases hhead

/-- After a number sign that was left bare no slot is opened. -/
theorem head?_escape_ne {following text next : List Char}
    (hnext : Literal.interpolationOpeners.contains following = false → next.head? ≠ some '\x7b')
    (h : Literal.interpolationOpeners.contains (Literal.nextText text following) = false) :
    (Literal.escape following text ++ next).head? ≠ some '\x7b' := by
  cases text with
  | nil => exact hnext h
  | cons c text =>
    have hc : c ≠ '\x7b' := by
      rintro rfl
      cases h
    rw [Literal.escape, List.append_assoc, List.head?_append]
    obtain hhead | hhead := Scanner.head?_escapeChar c (Literal.nextText text following)
    · rw [hhead]
      simp
    · rw [hhead]
      simpa using hc

/-- Nor does an escaped character, with what comes after it taken into account. -/
theorem inString_escapeChar {frames : List Frame} {following text next : List Char} {c : Char}
    (hnext : Literal.interpolationOpeners.contains following = false → next.head? ≠ some '\x7b')
    {s : State} (hs : InString frames (Literal.escape following (c :: text) ++ next) s) :
    InString frames (Literal.escape following text ++ next)
      (feedAll s (Literal.escapeChar c (Literal.nextText text following))) := by
  rw [Literal.escape, List.append_assoc] at hs
  rw [feedAll_of_inString (escapeChar_ne_nil _ _) hs]
  obtain hquoted | ⟨hsign, hopens⟩ :=
    feedAll_escapeChar frames c (Literal.nextText text following)
  · exact .inl hquoted
  · exact .inr ⟨hsign, head?_escape_ne hnext hopens⟩

/-- Nor does an escaped text. -/
theorem inString_escape {frames : List Frame} {following : List Char} (text next : List Char)
    (hnext : Literal.interpolationOpeners.contains following = false → next.head? ≠ some '\x7b')
    {s : State}
    (hs : InString frames (Literal.escape following text ++ next) s) :
    InString frames next (feedAll s (Literal.escape following text)) := by
  induction text generalizing s with
  | nil => exact hs
  | cons c text ih =>
    rw [Literal.escape, feedAll_append]
    exact ih (inString_escapeChar hnext hs)

/-- The closing quote. -/
theorem feed_quote {frames : List Frame} {rest : List Char} {s : State}
    (h : InString frames ('"' :: rest) s) : feed s '"' = ⟨.gap, frames⟩ := by
  rw [feed_of_inString h]
  rfl

theorem feed_openingQuote {m : Mode} (hm : m.isSettled = true ∨ m = .symbol [])
    (frames : List Frame) : feed ⟨m, frames⟩ '"' = ⟨.quoted, frames⟩ := by
  obtain hm | rfl := hm
  · rw [feed_of_isSettled hm, feedCode, takesBracket_of_isSettled hm]
    rfl
  · rfl

/-- A text inside a double-quoted string: read up to the closing quote, it leaves the string
open. -/
def Inside (text : List Char) : Prop :=
  ∀ frames s, InString frames (text ++ ['"']) s → InString frames ['"'] (feedAll s text)

theorem inside_nil : Inside [] := fun _ _ hs => hs

/-- An escaped text, and more after it. -/
theorem Inside.escape {following rest : List Char} (h : Inside rest)
    (hrest : Literal.interpolationOpeners.contains following = false →
      (rest ++ ['"']).head? ≠ some '\x7b') (text : List Char) :
    Inside (Literal.escape following text ++ rest) := by
  intro frames s hs
  rw [List.append_assoc] at hs
  rw [feedAll_append]
  exact h frames _ (inString_escape text _ hrest hs)

/-- A slot, and more after it. -/
theorem Inside.slot {inner rest : List Char} (h : Inside rest) (hinner : Closed inner) :
    Inside ('#' :: '\x7b' :: inner ++ '\x7d' :: rest) := by
  intro frames s hs
  obtain ⟨m, hm, hread⟩ := hinner .gap (.slot :: frames) rfl
  have hslot : feedAll s ('#' :: '\x7b' :: inner) = ⟨m, .slot :: frames⟩ := by
    rw [feedAll_cons, feed_of_inString hs, feedAll_cons]
    exact hread
  rw [feedAll_append, hslot, feedAll_cons, feed_closing hm _ rfl]
  exact h frames _ (.inl rfl)

/-- Between quotes such a text is closed, also after the colon of a symbol. -/
theorem Inside.closedName {text : List Char} (h : Inside text) :
    ClosedName ('"' :: text ++ ['"']) := by
  have hquoted (m : Mode) (hm : m.isSettled = true ∨ m = .symbol []) (frames : List Frame) :
      feedAll ⟨m, frames⟩ ('"' :: text ++ ['"']) = ⟨.gap, frames⟩ := by
    rw [List.cons_append, feedAll_cons, feed_openingQuote hm, feedAll_append]
    exact feed_quote (h frames _ (.inl rfl))
  exact ⟨fun m frames hm => ⟨.gap, rfl, hquoted m (.inl hm) frames⟩,
    fun frames => ⟨.gap, rfl, hquoted _ (.inr rfl) frames⟩⟩

theorem closedName_doubleQuoted (text : List Char) : ClosedName (Literal.doubleQuoted text) := by
  have hinside : Inside (Literal.escape ['"'] text ++ []) :=
    inside_nil.escape (fun _ => by decide) text
  rw [List.append_nil] at hinside
  exact hinside.closedName

theorem feedAll_singleEscape (text : List Char) (frames : List Frame) :
    feedAll ⟨.raw, frames⟩ (text.flatMap Literal.singleEscapeChar) = ⟨.raw, frames⟩ := by
  induction text with
  | nil => rfl
  | cons c text ih =>
    have hstep : feedAll ⟨.raw, frames⟩ (Literal.singleEscapeChar c) = ⟨.raw, frames⟩ := by
      rw [Literal.singleEscapeChar]
      split
      · rfl
      · rename_i hplain
        simp_all [feedAll, feed]
    rw [List.flatMap_cons, feedAll_append, hstep, ih]

theorem closed_singleQuoted (text : List Char) : Closed (Literal.singleQuoted text) := by
  intro m frames hm
  refine ⟨.gap, rfl, ?_⟩
  have hopening : feed ⟨m, frames⟩ '\'' = ⟨.raw, frames⟩ := by
    rw [feed_of_isSettled hm, feedCode, takesBracket_of_isSettled hm]
    rfl
  rw [Literal.singleQuoted, List.cons_append, feedAll_cons, hopening, feedAll_append,
    feedAll_singleEscape]
  rfl

/-- **A string is closed**, whatever is in it. -/
theorem closed_string (text : List Char) : Closed (Literal.string text) := by
  rw [Literal.string]
  split
  · exact closed_singleQuoted text
  · exact (closedName_doubleQuoted text).closed

/-- **A symbol is closed.** -/
theorem closed_symbol (text : List Char) : Closed (Literal.symbol text) := by
  rw [Literal.symbol]
  split
  · exact (closedName_of_isBareSymbol ‹_›).symbol
  · exact (closedName_doubleQuoted text).symbol

/-- **A comment is closed** if it ends with its line. -/
theorem closed_comment {text : List Char} (h : '\n' ∉ text) : Closed ('#' :: text ++ ['\n']) := by
  intro m frames hm
  refine ⟨.gap, rfl, ?_⟩
  have hopening : feed ⟨m, frames⟩ '#' = ⟨.comment, frames⟩ := by
    rw [feed_of_isSettled hm, feedCode, takesBracket_of_isSettled hm]
    rfl
  have hinside : feedAll ⟨.comment, frames⟩ text = ⟨.comment, frames⟩ := by
    induction text with
    | nil => rfl
    | cons c text ih =>
      rw [List.mem_cons, not_or] at h
      have hc : feed ⟨.comment, frames⟩ c = ⟨.comment, frames⟩ := by
        simp [feed, Ne.symm h.1]
      rw [feedAll_cons, hc, ih h.2]
  rw [List.cons_append, feedAll_cons, hopening, feedAll_append, hinside]
  rfl

end Lexer

/-! ## Segments -/

namespace Literal

variable {σ : Type}

/-- Whether a segment is a run of characters. -/
def Segment.isRun : Segment σ → Bool
  | .run _ => true
  | .slot _ => false

/-- No run comes directly after another one. -/
def IsMerged : List (Segment σ) → Prop
  | [] => True
  | segment :: rest =>
    (segment.isRun = true → ∀ next ∈ rest.head?, next.isRun = false) ∧ IsMerged rest

theorem isMerged_flush_append {p : Pending} {run rest : List (Segment σ)}
    (h : p.flush = .ok run) (hrest : IsMerged rest)
    (hnext : ∀ next ∈ rest.head?, next.isRun = false) : IsMerged (run ++ rest) := by
  rw [Pending.flush] at h
  split at h
  · cases h
  · cases h
    split
    · exact hrest
    · exact ⟨fun _ => hnext, hrest⟩

/-- **Runs that come after each other are merged.** -/
theorem isMerged_segmentsAfter {parts : List (Part σ)} {p : Pending} {segments : List (Segment σ)}
    (h : segmentsAfter p parts = .ok segments) : IsMerged segments := by
  induction parts generalizing p segments with
  | nil =>
    rw [← List.append_nil segments]
    exact isMerged_flush_append h trivial (by simp)
  | cons part parts ih =>
    cases part with
    | run text => exact ih h
    | foreign typeName => exact ih h
    | other kind => cases h
    | slot content =>
      rw [segmentsAfter] at h
      obtain ⟨run, hrun, h⟩ := exists_of_bind_eq_ok h
      obtain ⟨rest, hrest, h⟩ := exists_of_bind_eq_ok h
      cases h
      have hslot : IsMerged (.slot content :: rest) :=
        ⟨fun hrun => absurd hrun Bool.false_ne_true, ih hrest⟩
      refine isMerged_flush_append hrun hslot fun next hnext => ?_
      cases hnext
      rfl

end Literal
end TerseRuby
