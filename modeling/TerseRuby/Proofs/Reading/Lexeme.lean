import TerseRuby.Literal.Symbol
import TerseRuby.Operator
import TerseRuby.Proofs.Number.Digits
import TerseRuby.Render.Text
import Mathlib.Data.List.Chain

/-!
# Cutting text into lexemes

Rendered text is read in two steps, and this is the first: a text is cut into words, numbers,
marks, separators and blanks.  The lexer always takes the longest lexeme that it finds, whatever
comes after it, so two lexemes that belong apart may be read as one where they meet.  A writer
that leaves out blanks has to know when that happens, and this file says it once.

* `Lexeme`, with its text before the cosmetic choices (`Lexeme.glyphs`).
* `Lexeme.scan`: the lexer.  A mark is the longest of `Mark.all` that the text begins with.
* `Lexeme.Apart`: the second of two lexemes does not lengthen the first.
* `Lexeme.scan_text`: the lexer gives back every row of lexemes in which neighbours are apart.
-/

set_option autoImplicit false

namespace TerseRuby

/-! ## Words -/

/-- The words that the language keeps for itself. -/
def keywords : List String :=
  ["__ENCODING__", "__FILE__", "__LINE__", "BEGIN", "END", "alias", "and", "begin", "break",
   "case", "class", "def", "defined?", "do", "else", "elsif", "end", "ensure", "false", "for",
   "if", "in", "module", "next", "nil", "not", "or", "redo", "rescue", "retry", "return", "self",
   "super", "then", "true", "undef", "unless", "until", "when", "while", "yield"]

/-- A name: an identifier that is no keyword. -/
structure Name where
  /-- Its spelling. -/
  text : String
  /-- It is an identifier. -/
  isIdentifier : Literal.isIdentifier text.toList = true
  /-- It is no keyword. -/
  not_keyword : text ∉ keywords
  deriving DecidableEq, Repr

/-- The shortest of names. -/
def Name.a : Name := ⟨"a", by decide, by decide⟩

/-- The name with a given spelling. -/
def Name.ofText? (text : String) : Option Name :=
  if h : Literal.isIdentifier text.toList = true ∧ text ∉ keywords then some ⟨text, h.1, h.2⟩
  else none

@[simp] theorem Name.ofText?_text (x : Name) : Name.ofText? x.text = some x := by
  rw [ofText?, dif_pos ⟨x.isIdentifier, x.not_keyword⟩]

theorem Name.ofText?_of_mem {text : String} (h : text ∈ keywords) : Name.ofText? text = none := by
  rw [ofText?, dif_neg fun hname => hname.2 h]

theorem Name.text_ne (x : Name) {text : String} (h : Literal.isIdentifier text.toList = false) :
    x.text ≠ text :=
  fun hx => Bool.false_ne_true (h.symm.trans (hx ▸ x.isIdentifier))

/-! ## Marks -/

/-- An operator that is no word, or a mark of punctuation. -/
inductive Mark where
  /-- An operator; a sign is the operator with two operands that is spelled alike. -/
  | operator (op : Operator)
  /-- An operator together with an assignment. -/
  | compound (op : Operator)
  /-- An opening parenthesis. -/
  | opening
  /-- A closing parenthesis. -/
  | closing
  /-- The dot before a method. -/
  | dot
  /-- A comma. -/
  | comma
  /-- The arrow before the variable that an exception is bound to. -/
  | arrow
  deriving DecidableEq, Repr

namespace Mark

/-- The characters of a mark. -/
def chars : Mark → List Char
  | .operator op => op.symbol.toList
  | .compound op => op.symbol.toList ++ ['=']
  | .opening => ['(']
  | .closing => [')']
  | .dot => ['.']
  | .comma => [',']
  | .arrow => ['=', '>']

/-- All marks, longer ones first. -/
def all : List Mark :=
  [.operator .compare, .operator .caseEqual, .operator .exclusiveRange, .compound .power,
   .compound .shiftLeft, .compound .shiftRight, .compound .conjunction, .compound .disjunction,
   .operator .power, .operator .shiftLeft, .operator .shiftRight, .operator .greaterEqual,
   .operator .lessEqual, .operator .equal, .operator .notEqual, .operator .patternMatch,
   .operator .patternMiss, .operator .conjunction, .operator .disjunction,
   .operator .inclusiveRange, .compound .times, .compound .divide, .compound .modulo,
   .compound .plus, .compound .minus, .compound .bitAnd, .compound .bitOr, .compound .bitXor,
   .arrow, .operator .times, .operator .divide, .operator .modulo, .operator .plus,
   .operator .minus, .operator .bitAnd, .operator .bitOr, .operator .bitXor, .operator .greater,
   .operator .less, .operator .bang, .operator .complement, .operator .assign, .opening, .closing,
   .dot, .comma]

/-- The longest mark that a text begins with. -/
def longest? (text : List Char) : Option Mark := all.find? fun m => m.chars.isPrefixOf text

/-- Whether a mark becomes the beginning of a longer one with a further character. -/
def grows (m : Mark) (c : Char) : Bool := all.any fun n => (m.chars ++ [c]).isPrefixOf n.chars

/-- No two marks are spelled alike, and longer ones come first. -/
theorem pairwise_all :
    all.Pairwise fun m n => n.chars.length ≤ m.chars.length ∧ m.chars ≠ n.chars := by
  decide

theorem longest?_append {m : Mark} {rest : List Char} (hm : m ∈ all)
    (h : ∀ c, rest.head? = some c → m.grows c = false) :
    longest? (m.chars ++ rest) = some m := by
  obtain ⟨before, after, hall⟩ := List.append_of_mem hm
  rw [longest?, List.find?_eq_some_iff_append]
  refine ⟨by simp, before, after, hall, fun n hn => ?_⟩
  have hpair := pairwise_all
  rw [hall, List.pairwise_append] at hpair
  obtain ⟨hlength, hne⟩ := hpair.2.2 n hn m (by simp)
  rw [Bool.not_eq_true', Bool.eq_false_iff, Ne, List.isPrefixOf_iff_prefix]
  intro hfront
  -- a longer mark at the front begins with this one, so the rest would lengthen it
  obtain ⟨more, hmore⟩ :=
    List.prefix_of_prefix_length_le (List.prefix_append m.chars rest) hfront hlength
  cases more with
  | nil => exact hne (by rw [← hmore, List.append_nil])
  | cons c more =>
    rw [← hmore, List.prefix_append_right_inj] at hfront
    obtain ⟨tail, htail⟩ := hfront
    have hgrows := h c (by rw [← htail]; rfl)
    rw [grows, List.any_eq_false] at hgrows
    refine hgrows n (hall ▸ List.mem_append_left _ hn) ?_
    rw [← hmore, List.isPrefixOf_iff_prefix]
    exact ⟨more, by simp⟩

/-- The characters of marks are no blanks, separators, digits or characters of a word. -/
theorem not_word_of_mem_chars {m : Mark} (hm : m ∈ all) {c : Char} (hc : c ∈ m.chars) :
    c ≠ ' ' ∧ c ≠ ';' ∧ c ≠ '\n' ∧ Decimal.isDigit c = false ∧ CharClass.isWord c = false := by
  have check : ∀ m ∈ all, ∀ c ∈ m.chars, c ≠ ' ' ∧ c ≠ ';' ∧ c ≠ '\n' ∧
      Decimal.isDigit c = false ∧ CharClass.isWord c = false := by decide
  exact check m hm c hc

theorem chars_ne_nil {m : Mark} (hm : m ∈ all) : m.chars ≠ [] := by
  have check : ∀ m ∈ all, m.chars ≠ [] := by decide
  exact check m hm

theorem exists_mem_chars_of_grows {m : Mark} {c : Char} (h : m.grows c = true) :
    ∃ n ∈ all, c ∈ n.chars := by
  obtain ⟨n, hn, hfront⟩ := List.any_eq_true.mp h
  rw [List.isPrefixOf_iff_prefix] at hfront
  exact ⟨n, hn, hfront.subset (by simp)⟩

end Mark

/-! ## Lexemes -/

/-- A piece of text that is read as one. -/
inductive Lexeme where
  /-- A word: a name or a keyword. -/
  | word (text : String)
  /-- A number. -/
  | number (n : Nat)
  /-- A mark. -/
  | mark (m : Mark)
  /-- A separator between statements. -/
  | separator
  /-- A blank. -/
  | blank
  /-- A character that begins no lexeme. -/
  | stray (c : Char)
  deriving DecidableEq, Repr

namespace Lexeme

/-- The text of a lexeme, before the cosmetic choices. -/
def glyphs : Lexeme → Text
  | .word text => Text.lit text
  | .number n => Text.ofChars (Decimal.natText n)
  | .mark m => Text.ofChars m.chars
  | .separator => [.separator]
  | .blank => [.char ' ']
  | .stray c => [.char c]

/-- The text of a row of lexemes. -/
def text (ls : List Lexeme) : Text := ls.flatMap glyphs

@[simp] theorem text_nil : text [] = [] := rfl

@[simp] theorem text_cons (l : Lexeme) (ls : List Lexeme) : text (l :: ls) = l.glyphs ++ text ls :=
  List.flatMap_cons

@[simp] theorem text_append (ls ms : List Lexeme) : text (ls ++ ms) = text ls ++ text ms :=
  List.flatMap_append

/-- The lexemes of a text. -/
def scan : List Char → List Lexeme
  | [] => []
  | c :: rest =>
    if c = ' ' then .blank :: scan rest
    else if c = ';' ∨ c = '\n' then .separator :: scan rest
    else if CharClass.isNameStart c then
      .word (String.ofList (c :: rest.takeWhile CharClass.isWord)) ::
        scan (rest.dropWhile CharClass.isWord)
    else if Decimal.isDigit c then
      .number (Decimal.natOf (c :: rest.takeWhile Decimal.isDigit)) ::
        scan (rest.dropWhile Decimal.isDigit)
    else
      match Mark.longest? (c :: rest) with
      | some m => .mark m :: scan (rest.drop (m.chars.length - 1))
      | none => .stray c :: scan rest
termination_by text => text.length
decreasing_by
  all_goals simp only [List.length_cons, List.length_drop]
  all_goals try have := (List.dropWhile_suffix CharClass.isWord (l := rest)).length_le
  all_goals try have := (List.dropWhile_suffix Decimal.isDigit (l := rest)).length_le
  all_goals omega

/-! ## Lexemes that stay apart -/

/-- A lexeme that the lexer can return, stray characters excepted. -/
def IsProper : Lexeme → Prop
  | .word text => Literal.isIdentifier text.toList = true
  | .mark m => m ∈ Mark.all
  | .stray _ => False
  | _ => True

/-- The lexeme is complete where the given character follows. -/
def EndsBefore (c : Char) : Lexeme → Prop
  | .word _ => CharClass.isWord c = false
  | .number _ => Decimal.isDigit c = false
  | .mark m => m.grows c = false
  | _ => True

/-- A word begins with none of the characters that the lexer asks about first. -/
theorem isNameStart_ne {c : Char} (h : CharClass.isNameStart c = true) :
    c ≠ ' ' ∧ ¬(c = ';' ∨ c = '\n') := by
  have hblank : CharClass.isNameStart ' ' = false := by decide
  have hsemicolon : CharClass.isNameStart ';' = false := by decide
  have hnewline : CharClass.isNameStart '\n' = false := by decide
  refine ⟨?_, ?_⟩
  · rintro rfl
    exact Bool.false_ne_true (hblank.symm.trans h)
  · rintro (rfl | rfl)
    · exact Bool.false_ne_true (hsemicolon.symm.trans h)
    · exact Bool.false_ne_true (hnewline.symm.trans h)

theorem scan_word_append {text : String} {rest : List Char}
    (htext : Literal.isIdentifier text.toList = true)
    (hrest : ∀ c, rest.head? = some c → CharClass.isWord c = false) :
    scan (text.toList ++ rest) = .word text :: scan rest := by
  cases hchars : text.toList with
  | nil => rw [hchars] at htext; exact nomatch htext
  | cons c cs =>
    rw [hchars, Literal.isIdentifier, Bool.and_eq_true, List.all_eq_true] at htext
    obtain ⟨hblank, hseparator⟩ := isNameStart_ne htext.1
    obtain ⟨htake, hdrop⟩ := span_append htext.2 hrest
    rw [List.cons_append, scan, if_neg hblank, if_neg hseparator, if_pos htext.1, htake, hdrop,
      ← hchars, String.ofList_toList]

/-- What a decimal digit is not. -/
theorem isDigit_ne {c : Char} (h : Decimal.isDigit c = true) :
    c ≠ ' ' ∧ ¬(c = ';' ∨ c = '\n') ∧ ¬CharClass.isNameStart c = true := by
  refine @Decimal.forall_isDigit (fun c => c ≠ ' ' ∧ ¬(c = ';' ∨ c = '\n') ∧
    ¬CharClass.isNameStart c = true) ?_ c h
  decide

theorem scan_number_append {n : Nat} {rest : List Char}
    (hrest : ∀ c, rest.head? = some c → Decimal.isDigit c = false) :
    scan (Decimal.natText n ++ rest) = .number n :: scan rest := by
  cases hchars : Decimal.natText n with
  | nil => exact absurd hchars Nat.toDigits_ne_nil
  | cons c cs =>
    have hdigits : ∀ d ∈ c :: cs, Decimal.isDigit d = true := fun d hd =>
      Decimal.isDigit_of_mem_natText (hchars ▸ hd)
    rw [List.forall_mem_cons] at hdigits
    obtain ⟨hblank, hseparator, hname⟩ := isDigit_ne hdigits.1
    obtain ⟨htake, hdrop⟩ := span_append hdigits.2 hrest
    rw [List.cons_append, scan, if_neg hblank, if_neg hseparator, if_neg hname,
      if_pos hdigits.1, htake, hdrop, ← hchars, Decimal.natOf_natText]

theorem scan_mark_append {m : Mark} {rest : List Char} (hm : m ∈ Mark.all)
    (hrest : ∀ c, rest.head? = some c → m.grows c = false) :
    scan (m.chars ++ rest) = .mark m :: scan rest := by
  have hlongest := Mark.longest?_append hm hrest
  cases hchars : m.chars with
  | nil => exact absurd hchars (Mark.chars_ne_nil hm)
  | cons c cs =>
    obtain ⟨hblank, hsemicolon, hnewline, hdigit, hword⟩ :=
      Mark.not_word_of_mem_chars hm (c := c) (by rw [hchars]; simp)
    have hname : ¬CharClass.isNameStart c = true := by simp [CharClass.isNameStart, hword]
    rw [hchars, List.cons_append] at hlongest
    rw [List.cons_append, scan, if_neg hblank, if_neg (not_or.mpr ⟨hsemicolon, hnewline⟩),
      if_neg hname, if_neg (by simp [hdigit]), hlongest]
    simp [hchars]

/-- **One step of the lexer.**  A lexeme that ends where it should is read as one. -/
theorem scan_glyphs_append (o : Options) {l : Lexeme} {rest : List Char} (hl : l.IsProper)
    (hrest : ∀ c, rest.head? = some c → l.EndsBefore c) :
    scan (l.glyphs.spell o ++ rest) = l :: scan rest := by
  cases l with
  | word text => rw [glyphs, Text.lit, Text.spell_ofChars]; exact scan_word_append hl hrest
  | number n => rw [glyphs, Text.spell_ofChars]; exact scan_number_append hrest
  | mark m => rw [glyphs, Text.spell_ofChars]; exact scan_mark_append hl hrest
  | separator =>
    rw [glyphs, Text.spell, List.flatMap_singleton, Glyph.spell, Options.separator]
    cases o.insertSeparators <;> simp [scan]
  | blank => simp [glyphs, Text.spell, Glyph.spell, scan]
  | stray c => exact hl.elim

/-- The second of two neighbouring lexemes does not lengthen the first. -/
def Apart (l m : Lexeme) : Prop :=
  ∀ (o : Options) (c : Char), (m.glyphs.spell o).head? = some c → l.EndsBefore c

/-- A blank or a separator ends every lexeme, and nothing lengthens it. -/
theorem endsBefore_of_gap {c : Char} (hc : c = ' ' ∨ c = ';' ∨ c = '\n') (l : Lexeme) :
    l.EndsBefore c := by
  have hplain : ∀ c ∈ [' ', ';', '\n'], CharClass.isWord c = false ∧ Decimal.isDigit c = false := by
    decide
  have hmem : c ∈ [' ', ';', '\n'] := by simpa using hc
  cases l with
  | word text => exact (hplain c hmem).1
  | number n => exact (hplain c hmem).2
  | mark m =>
    rw [EndsBefore, Bool.eq_false_iff]
    intro hgrows
    obtain ⟨n, hn, hcn⟩ := Mark.exists_mem_chars_of_grows hgrows
    have hne := Mark.not_word_of_mem_chars hn hcn
    obtain rfl | rfl | rfl := hc
    · exact hne.1 rfl
    · exact hne.2.1 rfl
    · exact hne.2.2.1 rfl
  | separator => exact trivial
  | blank => exact trivial
  | stray d => exact trivial

theorem apart_blank (l : Lexeme) : Apart l .blank := by
  intro o c hc
  rw [glyphs, Text.spell, List.flatMap_singleton, Glyph.spell, List.head?_cons,
    Option.some_inj] at hc
  exact endsBefore_of_gap (Or.inl hc.symm) l

theorem apart_separator (l : Lexeme) : Apart l .separator := by
  intro o c hc
  rw [glyphs, Text.spell, List.flatMap_singleton, Glyph.spell, List.head?_cons,
    Option.some_inj, Options.separator] at hc
  refine endsBefore_of_gap (Or.inr ?_) l
  split at hc
  · exact Or.inl hc.symm
  · exact Or.inr hc.symm

/-- A mark ends a word. -/
theorem apart_word_mark (text : String) {m : Mark} (hm : m ∈ Mark.all) :
    Apart (.word text) (.mark m) := by
  intro o c hc
  rw [glyphs, Text.spell_ofChars] at hc
  exact (Mark.not_word_of_mem_chars hm (List.mem_of_mem_head? hc)).2.2.2.2

/-- A mark ends a number. -/
theorem apart_number_mark (n : Nat) {m : Mark} (hm : m ∈ Mark.all) :
    Apart (.number n) (.mark m) := by
  intro o c hc
  rw [glyphs, Text.spell_ofChars] at hc
  exact (Mark.not_word_of_mem_chars hm (List.mem_of_mem_head? hc)).2.2.2.1

/-- A word ends a mark. -/
theorem apart_mark_word (m : Mark) {text : String}
    (htext : Literal.isIdentifier text.toList = true) : Apart (.mark m) (.word text) := by
  intro o c hc
  rw [glyphs, Text.lit, Text.spell_ofChars] at hc
  rw [EndsBefore, Bool.eq_false_iff]
  intro hgrows
  obtain ⟨n, hn, hcn⟩ := Mark.exists_mem_chars_of_grows hgrows
  have hword := (Mark.not_word_of_mem_chars hn hcn).2.2.2.2
  cases hchars : text.toList with
  | nil => rw [hchars] at hc; exact nomatch hc
  | cons d cs =>
    rw [hchars, List.head?_cons, Option.some_inj] at hc
    rw [hchars, Literal.isIdentifier, hc, CharClass.isNameStart, hword] at htext
    exact Bool.false_ne_true htext

/-- A number ends a mark. -/
theorem apart_mark_number (m : Mark) (n : Nat) : Apart (.mark m) (.number n) := by
  intro o c hc
  rw [glyphs, Text.spell_ofChars] at hc
  rw [EndsBefore, Bool.eq_false_iff]
  intro hgrows
  obtain ⟨k, hk, hck⟩ := Mark.exists_mem_chars_of_grows hgrows
  have hdigit := (Mark.not_word_of_mem_chars hk hck).2.2.2.1
  rw [Decimal.isDigit_of_mem_natText (List.mem_of_mem_head? hc)] at hdigit
  exact Bool.false_ne_true hdigit.symm

theorem apart_mark_mark {m n : Mark} (h : ∀ c ∈ n.chars.head?, m.grows c = false) :
    Apart (.mark m) (.mark n) := by
  intro o c hc
  rw [glyphs, Text.spell_ofChars] at hc
  exact h c hc

theorem spell_glyphs_ne_nil (o : Options) {l : Lexeme} (hl : l.IsProper) :
    l.glyphs.spell o ≠ [] := by
  cases l with
  | word text =>
    rw [glyphs, Text.lit, Text.spell_ofChars]
    intro h
    rw [IsProper, h] at hl
    exact nomatch hl
  | number n => rw [glyphs, Text.spell_ofChars]; exact Nat.toDigits_ne_nil
  | mark m => rw [glyphs, Text.spell_ofChars]; exact Mark.chars_ne_nil hl
  | separator => simp [glyphs, Text.spell, Glyph.spell]
  | blank => simp [glyphs, Text.spell, Glyph.spell]
  | stray c => exact hl.elim

/-- **The lexer gives back what was written**, if no lexeme is lengthened by the next one. -/
theorem scan_text (o : Options) {ls : List Lexeme} (hproper : ∀ l ∈ ls, l.IsProper)
    (hapart : ls.IsChain Apart) : scan ((text ls).spell o) = ls := by
  induction ls with
  | nil => simp [scan, Text.spell]
  | cons l ls ih =>
    rw [List.forall_mem_cons] at hproper
    rw [text_cons, Text.spell_append, scan_glyphs_append o hproper.1,
      ih hproper.2 hapart.tail]
    intro c hc
    cases ls with
    | nil => cases hc
    | cons m ls =>
      rw [text_cons, Text.spell_append,
        List.head?_append_of_ne_nil _ (spell_glyphs_ne_nil o (hproper.2 m (by simp)))] at hc
      exact (List.isChain_cons_cons.mp hapart).1 o c hc

end Lexeme
end TerseRuby
