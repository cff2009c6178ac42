import TerseRuby.Proofs.Tokens.Beginning

/-!
# Reading an operator

An operator between two operands is a token of its own if the token before it does not take its
first character, and if the operand after it does not make it longer.  The second is never the case:
no operand begins with a character that would (`Lexer.grows_of_mem_infixes`).  The first depends on
the token, and `Lexer.Mode.absorbs` says which tokens take which operators.

`Lexer.isToken_of_mem_infixes` is the result.  It is about a text whose last token is no name with a
mark, because the rules keep such a name apart from any operator.
-/

set_option autoImplicit false

namespace TerseRuby
namespace Lexer

/-- The spellings of the operators that are written between two operands without blanks. -/
def infixes : List (List Char) :=
  ["**", "*", "/", "%", "+", "-", "<<", ">>", "&", "|", "^", ">", ">=", "<", "<=", "<=>", "==",
    "===", "!=", "=~", "!~", "&&", "||", "=>"].map String.toList

/-- Whether an operator is read into the token before it, given what comes after the operator.  A
name takes the exclamation mark of `!~`, and an operator or a symbol that is spelled like one takes
a character that makes it longer.  A number that ends in the letter of an exponent takes a sign if
digits follow. -/
def Mode.absorbs (m : Mode) (op right : List Char) : Bool :=
  match m with
  | .word => op == ['!', '~']
  | .exponent => (op == ['+'] || op == ['-']) && right.head?.any Char.isDigit
  | .operator _ spelling => op.head?.any (grows operators spelling)
  | .symbol spelling => op.head?.any (grows symbols spelling)
  | _ => false

/-- Whether the token in progress is a name with a mark at its end. -/
def Mode.isMarked : Mode → Bool
  | .marked _ => true
  | _ => false

/-- Whether a character begins an operator between operands and nothing else. -/
def isInfixStart (c : Char) : Bool :=
  isPlain c && isOperatorChar c && !CharClass.isWord c && !c.isDigit && c != '?' && c != '.'

theorem isInfixStart_iff {c : Char} : isInfixStart c = true ↔
    isPlain c = true ∧ isOperatorChar c = true ∧ CharClass.isWord c = false ∧ c.isDigit = false ∧
      c ≠ '?' ∧ c ≠ '.' := by
  simp [isInfixStart, and_assoc]

/-- Whether an operator goes on with each of some characters. -/
def spells (spelling : List Char) : List Char → Bool
  | [] => true
  | c :: rest =>
    isInfixStart c && grows operators spelling c && spells (spelling ++ [c]) rest

/-- The operators between operands are read character by character, and only two of them begin with
an exclamation mark. -/
theorem infixes_spelled : ∀ op ∈ infixes,
    op.head?.any isInfixStart = true ∧ spells (op.take 1) op.tail = true ∧
      (op.head? = some '!' → op = ['!', '='] ∨ op = ['!', '~']) ∧
      (op.head? = some '+' → op = ['+']) ∧ (op.head? = some '-' → op = ['-']) := by
  decide

/-- The beginning of an expression makes no longer operator of the one before it. -/
theorem grows_of_mem_infixes {op : List Char} (hop : op ∈ infixes) {d : Char}
    (hd : isStart d = true) : grows operators op d = false := by
  have hnone : ∀ op ∈ infixes, ∀ other ∈ operators, other.take op.length = op →
      other[op.length]?.all (!isStart ·) = true := by
    decide
  rw [Bool.eq_false_iff]
  intro hgrows
  obtain ⟨other, hother, htake, hget⟩ := grows_iff.mp hgrows
  have hstart := hnone op hop other hother htake
  rw [hget, Option.all_some, hd] at hstart
  cases hstart

theorem isBoundary_of_isToken {before token next : List Char}
    (h : isToken before token next = true) : isBoundary before (token ++ next) = true := by
  rw [isToken, Bool.and_eq_true, Bool.and_eq_true] at h
  exact h.1.1

section Reading

variable {m : Mode} {frames : List Frame} {c : Char} {op rest right : List Char}

theorem next_of_isInfixStart (hc : isInfixStart c = true) (m : Mode) :
    m.next c = m.afterOperator c := by
  obtain ⟨-, hoperator, hword, -⟩ := isInfixStart_iff.mp hc
  rw [Mode.next, hword, hoperator]
  rfl

theorem feed_of_isInfixStart (hm : m.isSettled = true) (hc : isInfixStart c = true) :
    feed ⟨m, frames⟩ c = ⟨m.afterOperator c, frames⟩ := by
  rw [feed_of_isSettled hm, feedCode_of_isPlain (isInfixStart_iff.mp hc).1, next_of_isInfixStart hc]

theorem feedAll_spells {spelling : List Char} (h : spells spelling rest = true) (b : Bool) :
    feedAll ⟨.operator b spelling, frames⟩ rest =
      ⟨.operator (b && rest.isEmpty) (spelling ++ rest), frames⟩ := by
  induction rest generalizing spelling b with
  | nil => simp [feedAll]
  | cons c rest ih =>
    simp only [spells, Bool.and_eq_true] at h
    rw [feedAll_cons, feed_of_isInfixStart rfl h.1.1, Mode.afterOperator, if_pos h.1.2, ih h.2]
    simp

/-- Until the operator is complete it goes on. -/
theorem goesOn_spells {spelling : List Char} (h : spells spelling rest = true) (b : Bool) {i : Nat}
    (hi : i < rest.length) :
    (feedAll ⟨.operator b spelling, frames⟩ (rest.take i)).mode.goesOn
      (rest.drop i ++ right) = true := by
  induction rest generalizing spelling b i with
  | nil => cases hi
  | cons c rest ih =>
    simp only [spells, Bool.and_eq_true] at h
    cases i with
    | zero =>
      change (grows operators spelling c || _) = true
      rw [h.1.2, Bool.true_or]
    | succ i =>
      rw [List.take_succ_cons, List.drop_succ_cons, feedAll_cons, feed_of_isInfixStart rfl h.1.1,
        Mode.afterOperator, if_pos h.1.2]
      exact ih h.2 false (Nat.lt_of_succ_lt_succ hi)

/-- The token before an operator goes on exactly if it takes the operator. -/
theorem goesOn_of_mem_infixes (hm : m.isSettled = true) (hmark : m.isMarked = false)
    (hop : op ∈ infixes) : m.goesOn (op ++ right) = m.absorbs op right := by
  obtain ⟨hstart, -, hbang, hplus, hminus⟩ := infixes_spelled op hop
  cases op with
  | nil => cases hstart
  | cons c rest =>
    obtain ⟨hplain, hoperator, hword, hdigit, hquestion, hpoint⟩ := isInfixStart_iff.mp hstart
    have hne {d : Char} (h : c ≠ d) : (c == d) = false := beq_eq_false_iff_ne.mpr h
    have hcolon : (c == ':') = false := hne (ne_of_isPlain hplain (by decide))
    have hat : (c == '@') = false := by
      refine hne ?_
      rintro rfl
      cases hoperator
    cases m with
    | word =>
      by_cases hc : c = '!'
      · subst hc
        rcases hbang rfl with heq | heq <;> cases heq <;> rfl
      · simp [Mode.goesOn, Mode.absorbs, hword, hne hquestion, hcolon, hne hc]
    | exponent =>
      by_cases hc : c = '+'
      · subst hc
        cases hplus rfl
        rfl
      by_cases hc' : c = '-'
      · subst hc'
        cases hminus rfl
        rfl
      · simp [Mode.goesOn, Mode.absorbs, hword, hne hpoint, hne hc, hne hc']
    | marked mark => cases hmark
    | operator inNumber spelling => simp [Mode.goesOn, Mode.absorbs, hdigit]
    | symbol spelling =>
      have hspelling : spelling ≠ [] := bne_iff_ne.mp (Bool.and_eq_true_iff.mp hm).1
      simp [Mode.goesOn, Mode.absorbs, hspelling]
    | gap => rfl
    | label => simp [Mode.goesOn, Mode.absorbs, hcolon]
    | number => simp [Mode.goesOn, Mode.absorbs, hword, hne hpoint]
    | sigil => simp [Mode.goesOn, Mode.absorbs, hword]
    | atSign => simp [Mode.goesOn, Mode.absorbs, hword, hat]
    | _ => cases hm

/-- The first character of an operator that is not taken by the token before it.  A name seems to
take the exclamation mark of `!=`, and gives it back when the equals sign comes. -/
theorem afterOperator_of_not_absorbs (hm : m.isSettled = true) (hmark : m.isMarked = false)
    (hop : c :: rest ∈ infixes) (habsorbs : m.absorbs (c :: rest) right = false) :
    (∃ b, m.afterOperator c = .operator b [c] ∧
        (b = true → (c = '+' ∨ c = '-') ∧ right.head?.any Char.isDigit = false)) ∨
      (m.afterOperator c = .marked '!' ∧ c :: rest = ['!', '=']) := by
  obtain ⟨hstart, -, hbang, hplus, hminus⟩ := infixes_spelled _ hop
  obtain ⟨-, -, -, -, hquestion, hpoint⟩ := isInfixStart_iff.mp hstart
  cases m with
  | word =>
    by_cases hc : c = '!'
    · subst hc
      rcases hbang rfl with heq | heq
      · exact .inr ⟨rfl, heq⟩
      · rw [heq] at habsorbs
        cases habsorbs
    · exact .inl ⟨false, by simp [Mode.afterOperator, hquestion, hc], by simp⟩
  | number => exact .inl ⟨false, by simp [Mode.afterOperator, hpoint], by simp⟩
  | exponent =>
    refine .inl ⟨_, rfl, fun hsign => ?_⟩
    simp only [hpoint, Bool.or_eq_true, beq_iff_eq, false_or] at hsign
    refine ⟨hsign, ?_⟩
    obtain rfl | rfl := hsign
    · cases hplus rfl
      exact habsorbs
    · cases hminus rfl
      exact habsorbs
  | operator inNumber spelling =>
    have hgrows : grows operators spelling c = false := habsorbs
    exact .inl ⟨false, by simp [Mode.afterOperator, hgrows], by simp⟩
  | symbol spelling =>
    have hgrows : grows symbols spelling c = false := habsorbs
    exact .inl ⟨false, by simp [Mode.afterOperator, hgrows], by simp⟩
  | marked mark => cases hmark
  | _ => exact .inl ⟨false, rfl, by simp⟩

/-- An operator that is not taken is read from its first character to its last. -/
theorem reads_of_mem_infixes (frames : List Frame) (hm : m.isSettled = true)
    (hmark : m.isMarked = false) (hop : c :: rest ∈ infixes)
    (habsorbs : m.absorbs (c :: rest) right = false) :
    (∀ i < rest.length, (feedAll ⟨m, frames⟩ (c :: rest.take i)).mode.goesOn
        (rest.drop i ++ right) = true) ∧
      ∃ b, feedAll ⟨m, frames⟩ (c :: rest) = ⟨.operator b (c :: rest), frames⟩ ∧
        (b = true → right.head?.any Char.isDigit = false) := by
  obtain ⟨hstart, hspells, -⟩ := infixes_spelled _ hop
  have hfirst : feed ⟨m, frames⟩ c = ⟨m.afterOperator c, frames⟩ := feed_of_isInfixStart hm hstart
  simp only [feedAll_cons, hfirst]
  obtain ⟨b, hoperator, hb⟩ | ⟨hmarked, heq⟩ :=
    afterOperator_of_not_absorbs hm hmark hop habsorbs
  · rw [hoperator]
    refine ⟨fun i hi => goesOn_spells hspells b hi, _, feedAll_spells hspells b, fun hsign => ?_⟩
    exact (hb (Bool.and_eq_true_iff.mp hsign).1).2
  · cases heq
    rw [hmarked]
    refine ⟨fun i hi => ?_, false, rfl, by simp⟩
    cases Nat.lt_one_iff.mp hi
    rfl

/-- **An operator is a token of its own unless it is taken by the token before it.** -/
theorem isToken_of_mem_infixes {before : List Char} (hbefore : after before = ⟨m, frames⟩)
    (hm : m.isSettled = true) (hmark : m.isMarked = false) (hop : op ∈ infixes)
    (hright : right.head?.any isStart = true) :
    isToken before op right = !m.absorbs op right := by
  have hread (text : List Char) : after (before ++ text) = feedAll ⟨m, frames⟩ text := by
    rw [after, feedAll_append, ← hbefore, after]
  have hboundary : isBoundary before (op ++ right) = !m.absorbs op right := by
    rw [isBoundary, hbefore, goesOn_of_mem_infixes hm hmark hop]
  rw [isToken, hboundary]
  cases habsorbs : m.absorbs op right with
  | true => rfl
  | false =>
    cases op with
    | nil => exact absurd hop (by decide)
    | cons c rest =>
      obtain ⟨hgoes, b, hend, hb⟩ := reads_of_mem_infixes frames hm hmark hop habsorbs
      have hends : isBoundary (before ++ c :: rest) right = true := by
        obtain ⟨d, hd, hstart⟩ := (Option.any_eq_true _ _).mp hright
        obtain ⟨tail, rfl⟩ := List.head?_eq_some_iff.mp hd
        rw [isBoundary, hread, hend]
        change (!(grows operators (c :: rest) d || (b && d.isDigit))) = true
        have hdigit : (b && d.isDigit) = false := by
          cases b with
          | false => rfl
          | true => exact hb rfl
        rw [grows_of_mem_infixes hop hstart, hdigit]
        rfl
      have hinside : ((List.range rest.length).all fun i =>
          !isBoundary (before ++ (c :: rest).take (i + 1))
            ((c :: rest).drop (i + 1) ++ right)) = true := by
        refine List.all_eq_true.mpr fun i hi => ?_
        rw [List.take_succ_cons, List.drop_succ_cons, isBoundary, hread,
          hgoes i (List.mem_range.mp hi)]
        rfl
      rw [hends]
      exact hinside

/-- A blank ends every token. -/
theorem not_goesOn_blank (hm : m.isSettled = true) : m.goesOn (' ' :: right) = false := by
  have hgrows (spellings : List (List Char)) (hnone : ∀ other ∈ spellings, ' ' ∉ other)
      (spelling : List Char) : grows spellings spelling ' ' = false := by
    rw [Bool.eq_false_iff]
    intro hgrows
    obtain ⟨other, hother, -, hget⟩ := grows_iff.mp hgrows
    exact hnone other hother (List.mem_of_getElem? hget)
  cases m with
  | operator inNumber spelling =>
    have hnone := hgrows operators (by decide) spelling
    simp [Mode.goesOn, hnone]
  | symbol spelling =>
    have hnone := hgrows symbols (by decide) spelling
    have hspelling : spelling ≠ [] := bne_iff_ne.mp (Bool.and_eq_true_iff.mp hm).1
    simp [Mode.goesOn, hnone, hspelling]
  | marked mark => simp [Mode.goesOn]
  | _ => first | rfl | cases hm

theorem feed_blank (hm : m.isSettled = true) : feed ⟨m, frames⟩ ' ' = ⟨.gap, frames⟩ := by
  rw [feed_of_isSettled hm, feedCode_of_isPlain (by decide)]
  rfl

theorem isNameMark_of_isMarked_afterOperator (h : (m.afterOperator c).isMarked = true) :
    Text.isNameMark c = true := by
  unfold Mode.afterOperator at h
  split at h
  · split at h
    · assumption
    · cases h
  all_goals first | cases h | (split at h <;> cases h)

theorem isNameMark_of_isMarked_next (h : (m.next c).isMarked = true) :
    Text.isNameMark c = true := by
  have hword : (m.afterWord c).isMarked = false := by
    unfold Mode.afterWord
    split <;> first | rfl | (split <;> rfl)
  have hcolon : m.afterColon.isMarked = false := by
    unfold Mode.afterColon
    split <;> rfl
  unfold Mode.next at h
  split at h
  · simp [hword] at h
  split at h
  · exact isNameMark_of_isMarked_afterOperator h
  split at h
  · simp [hcolon] at h
  iterate 5
    split at h
    · cases h
  cases h

theorem isNameMark_of_isMarked_feedCode (h : (feedCode m frames c).mode.isMarked = true) :
    Text.isNameMark c = true := by
  unfold feedCode at h
  split at h
  · rename_i htakes
    cases m <;> first | cases htakes | cases h
  split at h
  · cases h
  split at h
  · unfold close at h
    split at h <;> first | cases h | (split at h <;> cases h)
  · exact isNameMark_of_isMarked_next h

theorem isNameMark_of_isMarked_feed {s : State} (h : (feed s c).mode.isMarked = true) :
    Text.isNameMark c = true := by
  have hquoted : (feedQuoted s.frames c).mode.isMarked = false := by
    unfold feedQuoted
    split <;> first | rfl | (split <;> first | rfl | (split <;> rfl))
  unfold feed at h
  split at h
  · cases h
  · simp [hquoted] at h
  · cases h
  · split at h
    · cases h
    · simp [hquoted] at h
  · split at h
    · cases h
    · split at h <;> cases h
  · cases h
  · split at h <;> cases h
  · exact isNameMark_of_isMarked_feedCode h

/-- A name with a mark ends in the mark. -/
theorem getLast?_of_isMarked {text : List Char} (h : (after text).mode.isMarked = true) :
    text.getLast?.any Text.isNameMark = true := by
  rcases List.eq_nil_or_concat text with rfl | ⟨init, c, rfl⟩
  · cases h
  · rw [List.concat_eq_append] at h ⊢
    rw [after, feedAll_append] at h
    rw [List.getLast?_concat]
    exact isNameMark_of_isMarked_feed h

end Reading

end Lexer
end TerseRuby
