import TerseRuby.Proofs.Tokens.Literals

/-!
# Bars in a text

The parameters of a block stand between two bars, and the second one is the first bar after them
that is in no brackets and no string.  `Lexer.firstBar?` looks for it.  A text is barless if no such
bar is in it, wherever it is read (`Lexer.Barless`).

Between brackets a text may have any bars, if it closes what it opens: then it cannot close the
brackets around it either (`Lexer.feedAll_inside`).  Nor do the bars in a string count.
-/

set_option autoImplicit false

namespace TerseRuby
namespace Lexer

/-! ## Looking for a bar -/

/-- Whether the text so far ends inside a string. -/
def Mode.isInString : Mode → Bool
  | .quoted | .quotedEscape | .quotedSign | .raw | .rawEscape => true
  | _ => false

/-- Whether a character is a bar in no string, while as many brackets are open as given. -/
def isBar (depth : Nat) (s : State) (c : Char) : Bool :=
  c == '|' && s.frames.length == depth && !s.mode.isInString

/-- The place of the first such bar in a text. -/
def firstBar? (depth : Nat) : State → List Char → Option Nat
  | _, [] => none
  | s, c :: rest =>
    if isBar depth s c then some 0 else (firstBar? depth (feed s c) rest).map (· + 1)

section FirstBar

variable {depth : Nat} {s : State} {c : Char} {text : List Char}

theorem firstBar?_cons (h : isBar depth s c = false) (rest : List Char) :
    firstBar? depth s (c :: rest) = (firstBar? depth (feed s c) rest).map (· + 1) := by
  rw [firstBar?, h, if_neg Bool.false_ne_true]

/-- After a text without one, the first bar is that of what comes next. -/
theorem firstBar?_append (h : firstBar? depth s text = none) (rest : List Char) :
    firstBar? depth s (text ++ rest) =
      (firstBar? depth (feedAll s text) rest).map (· + text.length) := by
  induction text generalizing s with
  | nil => simp [feedAll]
  | cons c text ih =>
    rw [firstBar?] at h
    split at h
    · cases h
    · rename_i hbar
      rw [List.cons_append, firstBar?_cons (Bool.eq_false_iff.mpr hbar),
        ih (Option.map_eq_none_iff.mp h), Option.map_map, feedAll_cons]
      rfl

theorem firstBar?_append_eq_none {rest : List Char} (h : firstBar? depth s text = none)
    (hrest : firstBar? depth (feedAll s text) rest = none) :
    firstBar? depth s (text ++ rest) = none := by
  rw [firstBar?_append h, hrest]
  rfl

/-- It is enough that each character is none in its place. -/
theorem firstBar?_eq_none
    (h : ∀ front c back, text = front ++ c :: back → isBar depth (feedAll s front) c = false) :
    firstBar? depth s text = none := by
  induction text generalizing s with
  | nil => rfl
  | cons c text ih =>
    have hfirst : isBar depth s c = false := h [] c text rfl
    rw [firstBar?_cons hfirst, ih fun front d back heq => ?_]
    · rfl
    · exact h (c :: front) d back (by rw [heq]; rfl)

theorem isBar_of_ne (h : c ≠ '|') : isBar depth s c = false := by
  simp [isBar, h]

theorem isBar_of_isInString (h : s.mode.isInString = true) : isBar depth s c = false := by
  simp [isBar, h]

theorem firstBar?_of_not_mem (h : '|' ∉ text) : firstBar? depth s text = none := by
  refine firstBar?_eq_none fun front c back heq => isBar_of_ne ?_
  rintro rfl
  exact h (by simp [heq])

end FirstBar

/-! ## Between brackets -/

/-- The same state with further brackets open around it. -/
def State.inside (s : State) (outer : List Frame) : State := ⟨s.mode, s.frames ++ outer⟩

/-- A character either has nothing to do with the brackets around, or it closes one of them. -/
theorem feed_inside (s : State) (c : Char) :
    (∀ outer, feed (s.inside outer) c = (feed s c).inside outer) ∨
      feed (s.inside [.bracket]) c = feed s c := by
  obtain ⟨m, frames⟩ := s
  have hquoted (outer : List Frame) :
      feedQuoted (frames ++ outer) c = (feedQuoted frames c).inside outer := by
    unfold feedQuoted
    split_ifs <;> rfl
  have hcode : (∀ outer, feedCode m (frames ++ outer) c = (feedCode m frames c).inside outer) ∨
      feedCode m (frames ++ [.bracket]) c = feedCode m frames c := by
    unfold feedCode
    split_ifs
    · exact .inl fun _ => rfl
    · exact .inl fun _ => rfl
    · cases frames with
      | nil => exact .inr rfl
      | cons frame frames =>
        refine .inl fun outer => ?_
        cases frame with
        | bracket => rfl
        | slot =>
          simp only [close, List.cons_append]
          split <;> rfl
    · exact .inl fun _ => rfl
  cases m with
  | dollar | quotedEscape | rawEscape | comment => exact .inl fun _ => rfl
  | quoted => exact .inl hquoted
  | quotedSign =>
    refine .inl fun outer => ?_
    simp only [feed, State.inside]
    split
    · rfl
    · exact hquoted outer
  | raw =>
    refine .inl fun outer => ?_
    simp only [feed, State.inside]
    split <;> rfl
  | _ => exact hcode

theorem feedAll_inside_cases (s : State) (text : List Char) :
    (∀ outer, feedAll (s.inside outer) text = (feedAll s text).inside outer) ∨
      feedAll (s.inside [.bracket]) text = feedAll s text := by
  induction text generalizing s with
  | nil => exact .inl fun _ => rfl
  | cons c text ih =>
    simp only [feedAll_cons]
    obtain hc | hc := feed_inside s c
    · simp only [hc]
      exact ih (feed s c)
    · exact .inr (by rw [hc])

/-- **A closed text has nothing to do with the brackets around it**, and neither has any beginning
of it. -/
theorem feedAll_inside {front back : List Char} (h : Closed (front ++ back)) {m : Mode}
    (hm : m.isSettled = true) (outer : List Frame) :
    feedAll ⟨m, outer⟩ front = (feedAll ⟨m, []⟩ front).inside outer := by
  obtain hfront | hfront := feedAll_inside_cases ⟨m, []⟩ front
  · exact hfront outer
  · -- closing a bracket leads to one state from two, which would end in different ones
    obtain ⟨m₁, -, h₁⟩ := h m [] hm
    obtain ⟨m₂, -, h₂⟩ := h m [.bracket] hm
    have hsame : feedAll ⟨m, [.bracket]⟩ (front ++ back) = feedAll ⟨m, []⟩ (front ++ back) := by
      rw [feedAll_append, feedAll_append]
      exact congrArg (feedAll · back) hfront
    rw [h₁, h₂] at hsame
    cases hsame

/-- So it has no bar that counts outside of these brackets. -/
theorem firstBar?_of_closed {text : List Char} (h : Closed text) {m : Mode}
    (hm : m.isSettled = true) {depth : Nat} {frames : List Frame} (hdepth : depth < frames.length) :
    firstBar? depth ⟨m, frames⟩ text = none := by
  refine firstBar?_eq_none fun front c back heq => ?_
  rw [feedAll_inside (heq ▸ h) hm]
  have hlength : (feedAll ⟨m, []⟩ front).frames.length + frames.length ≠ depth := by omega
  simp [isBar, State.inside, hlength]

/-! ## Texts without bars -/

/-- Wherever the text is read, it has no bar outside of the brackets and strings that it opens. -/
def Barless (text : List Char) : Prop :=
  ∀ m frames, m.isSettled = true → firstBar? frames.length ⟨m, frames⟩ text = none

theorem barless_of_not_mem {text : List Char} (h : '|' ∉ text) : Barless text :=
  fun _ _ _ => firstBar?_of_not_mem h

theorem Barless.append {front back : List Char} (hfront : Barless front) (hclosed : Closed front)
    (hback : Barless back) : Barless (front ++ back) := by
  intro m frames hm
  obtain ⟨m', hm', hread⟩ := hclosed m frames hm
  refine firstBar?_append_eq_none (hfront m frames hm) ?_
  rw [hread]
  exact hback m' frames hm'

/-- Whatever is between brackets. -/
theorem barless_between {text : List Char} (h : Closed text) {opening closing : Char}
    (hopening : isOpening opening = true) (hclosing : isClosing closing = true) :
    Barless ([opening] ++ text ++ [closing]) := by
  intro m frames hm
  have hfirst : opening ≠ '|' := by
    rintro rfl
    exact absurd hopening (by decide)
  have hlast : '|' ∉ [closing] := by
    rintro hmem
    rw [← List.mem_singleton.mp hmem] at hclosing
    exact absurd hclosing (by decide)
  refine firstBar?_append_eq_none ?_ (firstBar?_of_not_mem hlast)
  rw [List.cons_append, List.nil_append, firstBar?_cons (isBar_of_ne hfirst),
    feed_opening hm frames hopening, firstBar?_of_closed h rfl (by simp)]
  rfl

/-- The place of the first bar in a text that is outside of the brackets and strings that open in
it. -/
def nextBar? (s : State) (text : List Char) : Option Nat := firstBar? s.frames.length s text

/-- **The first bar after a barless text is the one that follows it.** -/
theorem nextBar?_append {text : List Char} (hclosed : Closed text) (hbars : Barless text)
    {m : Mode} (hm : m.isSettled = true) (frames : List Frame) (rest : List Char) :
    nextBar? ⟨m, frames⟩ (text ++ '|' :: rest) = some text.length := by
  obtain ⟨m', hm', hread⟩ := hclosed m frames hm
  have hstring : m'.isInString = false := by
    revert hm'
    cases m' <;> first | exact fun _ => rfl | exact fun h => by cases h
  have hbar : isBar frames.length ⟨m', frames⟩ '|' = true := by simp [isBar, hstring]
  rw [nextBar?, firstBar?_append (hbars m frames hm), hread, firstBar?, if_pos hbar]
  simp

/-! ## Strings -/

theorem isBar_of_inString {depth : Nat} {frames : List Frame} {next : List Char} {s : State}
    (h : InString frames next s) (c : Char) : isBar depth s c = false := by
  refine isBar_of_isInString ?_
  obtain rfl | ⟨rfl, -⟩ := h <;> rfl

/-- The escape of a character that has a bar in it is the bar. -/
theorem escapeChar_of_mem_bar {c : Char} {next : List Char}
    (h : '|' ∈ Literal.escapeChar c next) : Literal.escapeChar c next = [c] := by
  have hupper : '|' ∉ Hex.upper 2 c.toNat := fun hmem =>
    Hex.forall_mem_fixed (p := fun d => d ≠ '|') (by decide) _ hmem rfl
  unfold Literal.escapeChar at h ⊢
  split_ifs at h ⊢ with h₁ h₂ h₃ h₄ h₅ h₆
  · simp at h
  · simp at h
  · simp at h
  · simp at h
  · rw [eq_of_beq h₄]
  · simp [hupper] at h
  · rfl

theorem firstBar?_escapeChar (depth : Nat) {frames : List Frame} {c : Char} {next rest : List Char}
    {s : State} (h : InString frames rest s) :
    firstBar? depth s (Literal.escapeChar c next) = none := by
  by_cases hmem : '|' ∈ Literal.escapeChar c next
  · rw [escapeChar_of_mem_bar hmem, firstBar?_cons (isBar_of_inString h c)]
    rfl
  · exact firstBar?_of_not_mem hmem

theorem firstBar?_escape (depth : Nat) {frames : List Frame} {following : List Char}
    (text next : List Char)
    (hnext : Literal.interpolationOpeners.contains following = false → next.head? ≠ some '\x7b')
    {s : State} (hs : InString frames (Literal.escape following text ++ next) s) :
    firstBar? depth s (Literal.escape following text) = none := by
  induction text generalizing s with
  | nil => rfl
  | cons c text ih =>
    rw [Literal.escape]
    exact firstBar?_append_eq_none (firstBar?_escapeChar depth hs)
      (ih (inString_escapeChar hnext hs))

/-- A text inside a double-quoted string that has no bar outside of its slots. -/
structure BarlessInside (text : List Char) : Prop where
  /-- It leaves the string open. -/
  inside : Inside text
  /-- The bars in it are in the string. -/
  barless : ∀ frames s, InString frames (text ++ ['"']) s →
    firstBar? frames.length s text = none

namespace BarlessInside

theorem nil : BarlessInside [] := ⟨inside_nil, fun _ _ _ => rfl⟩

/-- An escaped text, and more after it. -/
theorem escape {following rest : List Char} (h : BarlessInside rest)
    (hrest : Literal.interpolationOpeners.contains following = false →
      (rest ++ ['"']).head? ≠ some '\x7b') (text : List Char) :
    BarlessInside (Literal.escape following text ++ rest) := by
  refine ⟨h.inside.escape hrest text, fun frames s hs => ?_⟩
  rw [List.append_assoc] at hs
  exact firstBar?_append_eq_none (firstBar?_escape _ text _ hrest hs)
    (h.barless frames _ (inString_escape text _ hrest hs))

/-- A slot, and more after it. -/
theorem slot {inner rest : List Char} (h : BarlessInside rest) (hinner : Closed inner) :
    BarlessInside ('#' :: '\x7b' :: inner ++ '\x7d' :: rest) := by
  refine ⟨h.inside.slot hinner, fun frames s hs => ?_⟩
  obtain ⟨m, hm, hread⟩ := hinner .gap (.slot :: frames) rfl
  have hopen : feedAll s ['#', '\x7b'] = ⟨.gap, .slot :: frames⟩ := by
    rw [feedAll_cons, feed_of_inString hs]
    rfl
  have hinside : firstBar? frames.length ⟨.gap, .slot :: frames⟩ inner = none :=
    firstBar?_of_closed hinner rfl (by simp)
  have hclose : firstBar? frames.length ⟨m, .slot :: frames⟩ ('\x7d' :: rest) = none := by
    rw [firstBar?_cons (isBar_of_ne (by decide)), feed_closing hm _ rfl]
    rw [show close (.slot :: frames) '\x7d' = ⟨.quoted, frames⟩ from rfl,
      h.barless frames _ (.inl rfl)]
    rfl
  have hsplit : '#' :: '\x7b' :: inner ++ '\x7d' :: rest =
      ['#', '\x7b'] ++ (inner ++ '\x7d' :: rest) := rfl
  rw [hsplit]
  refine firstBar?_append_eq_none (firstBar?_of_not_mem (by decide)) ?_
  rw [hopen]
  refine firstBar?_append_eq_none hinside ?_
  rw [hread]
  exact hclose

/-- Between quotes it has no bar that counts, also after the colon of a symbol. -/
theorem firstBar?_quoted {text : List Char} (h : BarlessInside text) {m : Mode}
    (hm : m.isSettled = true ∨ m = .symbol []) (frames : List Frame) :
    firstBar? frames.length ⟨m, frames⟩ ('"' :: text ++ ['"']) = none := by
  have hopen : firstBar? frames.length ⟨m, frames⟩ ('"' :: text) = none := by
    rw [firstBar?_cons (isBar_of_ne (by decide)), feed_openingQuote hm,
      h.barless frames _ (.inl rfl)]
    rfl
  exact firstBar?_append_eq_none hopen (firstBar?_of_not_mem (by decide))

end BarlessInside

theorem firstBar?_doubleQuoted (text : List Char) {m : Mode}
    (hm : m.isSettled = true ∨ m = .symbol []) (frames : List Frame) :
    firstBar? frames.length ⟨m, frames⟩ (Literal.doubleQuoted text) = none := by
  have hinside : BarlessInside (Literal.escape ['"'] text ++ []) :=
    BarlessInside.nil.escape (fun _ => by decide) text
  rw [List.append_nil] at hinside
  exact hinside.firstBar?_quoted hm frames

theorem firstBar?_singleEscape (depth : Nat) (text : List Char) (frames : List Frame) :
    firstBar? depth ⟨.raw, frames⟩ (text.flatMap Literal.singleEscapeChar) = none := by
  induction text with
  | nil => rfl
  | cons c text ih =>
    have hstep : firstBar? depth ⟨.raw, frames⟩ (Literal.singleEscapeChar c) = none := by
      rw [Literal.singleEscapeChar]
      split
      · rw [firstBar?_cons (isBar_of_isInString rfl)]
        exact congrArg (Option.map _) (firstBar?_cons (isBar_of_isInString rfl) [])
      · exact firstBar?_cons (isBar_of_isInString rfl) []
    rw [List.flatMap_cons]
    refine firstBar?_append_eq_none hstep ?_
    have hread := feedAll_singleEscape [c] frames
    rw [List.flatMap_singleton] at hread
    rw [hread]
    exact ih

/-- **A string has no bar outside of its quotes.** -/
theorem barless_string (text : List Char) : Barless (Literal.string text) := by
  intro m frames hm
  rw [Literal.string]
  split
  · have hopening : feed ⟨m, frames⟩ '\'' = ⟨.raw, frames⟩ := by
      rw [feed_of_isSettled hm, feedCode, takesBracket_of_isSettled hm]
      rfl
    have hopen : firstBar? frames.length ⟨m, frames⟩
        ('\'' :: text.flatMap Literal.singleEscapeChar) = none := by
      rw [firstBar?_cons (isBar_of_ne (by decide)), hopening, firstBar?_singleEscape]
      rfl
    exact firstBar?_append_eq_none hopen (firstBar?_of_not_mem (by decide))
  · exact firstBar?_doubleQuoted text (.inl hm) frames

/-- **A symbol has one only if it is spelled with it.** -/
theorem barless_symbol {text : List Char}
    (h : Literal.isBareSymbol text = true → '|' ∉ text) : Barless (Literal.symbol text) := by
  rw [Literal.symbol]
  split
  · rename_i hbare
    exact barless_of_not_mem (List.not_mem_cons_of_ne_of_not_mem (by decide) (h hbare))
  · intro m frames hm
    rw [firstBar?_cons (isBar_of_ne (by decide)), feed_colon (.inl hm),
      firstBar?_doubleQuoted text (afterColon_cases hm)]
    rfl

/-! ## Numbers and names -/

theorem bar_not_mem_literalChars : '|' ∉ literalChars := by
  decide

theorem bar_not_mem_rubyText (x : Double) : '|' ∉ NumberFormat.ruby.text x := by
  cases x with
  | nan => decide
  | infinity negative => cases negative <;> decide
  | finite negative exponent fraction =>
    rw [NumberFormat.text, ← NumberFormat.chars_numeral]
    exact fun hmem => bar_not_mem_literalChars (chars_subset
      (NumberFormat.isProper_numeral_shortest _ negative exponent fraction) _ hmem)

theorem bar_not_mem_float {s : Scalar} {text : List Char} (h : Literal.float s = .ok text) :
    '|' ∉ text := by
  unfold Literal.float at h
  split at h
  · cases h
    exact bar_not_mem_rubyText _
  · split at h
    · rename_i n hn
      split at h
      · cases h
        exact fun hmem => bar_not_mem_literalChars
          (display_subset (by rw [hn]; rfl) ((List.takeWhile_sublist _).subset hmem))
      · cases h
    · cases h

theorem bar_not_mem_of_isIdentifier {text : List Char} (h : Literal.isIdentifier text = true) :
    '|' ∉ text := by
  cases text with
  | nil => exact List.not_mem_nil
  | cons c rest =>
    obtain ⟨hc, hrest⟩ := Bool.and_eq_true_iff.mp h
    intro hmem
    obtain rfl | hmem := List.mem_cons.mp hmem
    · exact absurd hc (by decide)
    · exact absurd (List.all_eq_true.mp hrest _ hmem) (by decide)

end Lexer
end TerseRuby
