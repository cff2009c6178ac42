import TerseRuby.Proofs.Reading.Lexeme
import TerseRuby.Render.Spacing

/-!
# Operator expressions and their lexemes

The expressions here are those that the table of operators is about: variables, integers, operators
before an operand and between two, assignments, and calls of a method by its name alone.
`Expr.lexemes` says how each of them is written: with which parentheses and with which blanks.
Nothing in it is decided by looking at characters but the two places where a blank or a pair of
parentheses depends on how the operand begins.

A row of lexemes that is written for an expression is a *phrase* (`Lexeme.IsPhrase`): its lexemes
stay apart, and it begins and ends with lexemes that stay apart from the operators around it.  That
property is kept by every way of building expressions, so `Expr.isPhrase_lexemes` holds of all of
them, and with `Lexeme.scan_text` it says that the lexer gives back `Expr.lexemes`.
-/

set_option autoImplicit false

namespace TerseRuby

/-! ## Operators by their place -/

namespace Operator

/-- The operators that stand before their operand. -/
def isUnary (op : Operator) : Bool := op.isUnaryMethod || op == .wordNot

/-- The operators that stand between two operands, assignment excepted. -/
def isBinary (op : Operator) : Bool :=
  op.isBinaryMethod || [.conjunction, .disjunction, .inclusiveRange, .exclusiveRange, .wordAnd,
    .wordOr].contains op

/-- The operators that are spelled as words. -/
def isWord : Operator → Bool
  | .wordNot | .wordAnd | .wordOr => true
  | _ => false

/-- The lexeme of an operator. -/
def lexeme : Operator → Lexeme
  | .positive => .mark (.operator .plus)
  | .negative => .mark (.operator .minus)
  | .wordNot => .word "not"
  | .wordAnd => .word "and"
  | .wordOr => .word "or"
  | op => .mark (.operator op)

/-- The lexemes of an operator between two operands: a word has blanks around it. -/
def between (op : Operator) : List Lexeme :=
  if op.isWord then [.blank, op.lexeme, .blank] else [op.lexeme]

end Operator

/-- An operator that stands before its operand. -/
abbrev UnaryOperator := { op : Operator // op.isUnary = true }

/-- The negation that is written as a word. -/
abbrev UnaryOperator.wordNot : UnaryOperator := ⟨Operator.wordNot, rfl⟩

/-- An operator that stands between two operands. -/
abbrev BinaryOperator := { op : Operator // op.isBinary = true }

/-! ## Expressions -/

/-- An operator expression. -/
inductive Expr where
  /-- A variable. -/
  | var (name : Name)
  /-- An integer literal. -/
  | integer (value : Int)
  /-- An operator before its operand. -/
  | unary (op : UnaryOperator) (operand : Expr)
  /-- An operator between two operands. -/
  | binary (op : BinaryOperator) (left right : Expr)
  /-- An assignment to a variable. -/
  | assign (name : Name) (value : Expr)
  /-- A method called by its name alone. -/
  | send (receiver : Expr) (name : Name)
  deriving DecidableEq, Repr

/-- A row of lexemes in parentheses, if they are needed. -/
def Lexeme.grouped (needed : Bool) (ls : List Lexeme) : List Lexeme :=
  if needed then .mark .opening :: ls ++ [.mark .closing] else ls

namespace Expr

open Lexeme (grouped)

/-- The operator that an expression is an application of; the sign of a negative number counts. -/
def operator? : Expr → Option Operator
  | .var _ => none
  | .integer n => if n < 0 then some .negative else none
  | .unary op _ => some op
  | .binary op _ _ => some op
  | .assign _ _ => some .assign
  | .send _ _ => none

/-- Whether an expression needs parentheses as an operand. -/
def needsParens (e : Expr) (parent : Operator) (side : Side) : Bool :=
  e.operator?.any fun child => child.needsParens parent side

/-- Whether an expression has a literal with more digits than are written. -/
def hasLong : Expr → Bool
  | .var _ => false
  | .integer n => Decimal.isLong n
  | .unary _ e => e.hasLong
  | .binary _ l r => l.hasLong || r.hasLong
  | .assign _ e => e.hasLong
  | .send e _ => e.hasLong

theorem hasLong_binary {op : BinaryOperator} {l r : Expr} :
    (binary op l r).hasLong = false ↔ l.hasLong = false ∧ r.hasLong = false :=
  Bool.or_eq_false_iff

/-- Whether an expression is an integer literal. -/
def isInteger : Expr → Bool
  | .integer _ => true
  | _ => false

/-- Whether a sign before an expression that begins with a digit would apply to something else. -/
def bindsToSign : Expr → Bool
  | .integer _ => false
  | .binary op l _ => !(op.1 == .power && l.isInteger)
  | _ => true

/-- What comes after a sign, in parentheses if the sign would be read into it. -/
def afterSign (binds : Bool) (inner : List Lexeme) : List Lexeme :=
  grouped ((Lexeme.text inner).startsWith CharClass.isDigit && binds) inner

/-- The lexemes of an operator before an operand that is written as `inner`. -/
def unaryLexemes (op : Operator) (binds : Bool) (inner : List Lexeme) : List Lexeme :=
  match op with
  | .bang =>
    let gap := (Lexeme.text inner).startsWith fun c => c == '~' || c == '='
    op.lexeme :: (if gap then [.blank] else []) ++ inner
  | .complement => op.lexeme :: inner
  | .wordNot => op.lexeme :: .blank :: inner
  | _ => op.lexeme :: afterSign binds inner

/-- The lexemes of an assignment of a value that is written as `inner`. -/
def assignLexemes (x : Name) (inner : List Lexeme) : List Lexeme :=
  let gap := (Lexeme.text inner).startsWith (· == '~')
  .word x.text :: Operator.assign.lexeme :: (if gap then [.blank] else []) ++ inner

/-- The lexemes of an expression. -/
def lexemes : Expr → List Lexeme
  | .var x => [.word x.text]
  | .integer n => (if n < 0 then [Operator.negative.lexeme] else []) ++ [.number n.natAbs]
  | .unary op e =>
    unaryLexemes op e.bindsToSign (grouped (e.needsParens op .right) e.lexemes)
  | .binary op l r =>
    grouped (l.needsParens op .left) l.lexemes ++ op.1.between ++
      grouped (r.needsParens op .right) r.lexemes
  | .assign x e => assignLexemes x (grouped (e.needsParens .assign .right) e.lexemes)
  | .send e x => grouped e.operator?.isSome e.lexemes ++ [.mark .dot, .word x.text]

end Expr

/-! ## Phrases -/

namespace Operator

theorem mem_all (op : Operator) : op ∈ all := by
  cases op <;> decide

/-- Every operator is spelled by a lexeme. -/
theorem isProper_lexeme (op : Operator) : op.lexeme.IsProper := by
  cases op <;> simp only [lexeme, Lexeme.IsProper] <;> decide

end Operator

namespace Lexeme

/-- The marks that an expression can begin with. -/
def firstMarks : List Mark :=
  [.opening, .operator .minus, .operator .plus, .operator .bang, .operator .complement]

/-- A lexeme that an expression can begin with. -/
inductive IsFirst : Lexeme → Prop
  | word {text : String} (h : Literal.isIdentifier text.toList = true) : IsFirst (.word text)
  | number (n : Nat) : IsFirst (.number n)
  | mark {m : Mark} (h : m ∈ firstMarks) : IsFirst (.mark m)

/-- A lexeme that an expression can end with. -/
inductive IsLast : Lexeme → Prop
  | word {text : String} (h : Literal.isIdentifier text.toList = true) : IsLast (.word text)
  | number (n : Nat) : IsLast (.number n)
  | closing : IsLast (.mark .closing)

/-- A row of lexemes that stay apart, from each other and from the operators around it. -/
structure IsPhrase (ls : List Lexeme) : Prop where
  /-- The lexemes are those of the lexer. -/
  proper : ∀ l ∈ ls, l.IsProper
  /-- Neighbours stay apart. -/
  apart : ls.IsChain Apart
  /-- It begins like an expression. -/
  first : ∃ l, ls.head? = some l ∧ l.IsFirst
  /-- It ends like an expression. -/
  last : ∃ l, ls.getLast? = some l ∧ l.IsLast

theorem apart_blank_left (l : Lexeme) : Apart .blank l := fun _ _ _ => trivial

/-- A closing parenthesis is never the beginning of a longer mark. -/
theorem grows_closing (c : Char) : Mark.closing.grows c = false := by
  have check : ∀ m ∈ Mark.all, m.chars.head? = some ')' → m.chars.length = 1 := by decide
  rw [Bool.eq_false_iff]
  intro h
  obtain ⟨m, hm, hfront⟩ := List.any_eq_true.mp h
  rw [List.isPrefixOf_iff_prefix] at hfront
  obtain ⟨tail, htail⟩ := hfront
  have hlength := check m hm (by rw [← htail]; rfl)
  rw [← htail] at hlength
  simp [Mark.chars] at hlength

theorem IsLast.apart_mark {l : Lexeme} (hl : l.IsLast) {m : Mark} (hm : m ∈ Mark.all) :
    Apart l (.mark m) := by
  cases hl with
  | word h => exact apart_word_mark _ hm
  | number n => exact apart_number_mark n hm
  | closing => exact apart_mark_mark fun c _ => grows_closing c

/-- A mark stays apart from an expression after it, if it does from the marks one can begin with. -/
theorem IsFirst.apart_mark {l : Lexeme} (hl : l.IsFirst) {m : Mark}
    (hm : ∀ n ∈ firstMarks, ∀ c ∈ n.chars.head?, m.grows c = false) : Apart (.mark m) l := by
  cases hl with
  | word h => exact apart_mark_word m h
  | number n => exact apart_mark_number m n
  | mark h => exact apart_mark_mark (hm _ h)

theorem IsFirst.isProper {l : Lexeme} (hl : l.IsFirst) : l.IsProper := by
  have check : ∀ m ∈ firstMarks, m ∈ Mark.all := by decide
  cases hl with
  | word h => exact h
  | number n => exact trivial
  | mark h => exact check _ h

theorem IsPhrase.singleton {l : Lexeme} (hfirst : l.IsFirst) (hlast : l.IsLast) :
    IsPhrase [l] where
  proper := by simpa using hfirst.isProper
  apart := List.isChain_singleton l
  first := ⟨l, rfl, hfirst⟩
  last := ⟨l, rfl, hlast⟩

/-- A phrase after a lexeme that can begin one, and others between them. -/
theorem IsPhrase.after {l : Lexeme} {ls : List Lexeme} (h : IsPhrase ls) (hl : l.IsFirst)
    (between : List Lexeme) (hproper : ∀ m ∈ between, m.IsProper)
    (hchain : ∀ m, ls.head? = some m → m.IsFirst → (l :: between ++ [m]).IsChain Apart) :
    IsPhrase (l :: between ++ ls) := by
  obtain ⟨m, hm, hfirst⟩ := h.first
  obtain ⟨k, hk, hlast⟩ := h.last
  refine ⟨?_, ?_, ⟨l, rfl, hl⟩, ⟨k, ?_, hlast⟩⟩
  · intro n hn
    rw [List.mem_append, List.mem_cons] at hn
    obtain (rfl | hn) | hn := hn
    · exact hl.isProper
    · exact hproper n hn
    · exact h.proper n hn
  · obtain ⟨ms, rfl⟩ := List.head?_eq_some_iff.mp hm
    exact List.isChain_split.mpr ⟨hchain m hm hfirst, h.apart⟩
  · rw [List.getLast?_append, hk]
    rfl

/-- Two phrases with lexemes between them. -/
theorem IsPhrase.append {ls ms : List Lexeme} (hls : IsPhrase ls) (hms : IsPhrase ms)
    (between : List Lexeme) (hproper : ∀ l ∈ between, l.IsProper)
    (hchain : ∀ l m, l.IsLast → m.IsFirst → (l :: between ++ [m]).IsChain Apart) :
    IsPhrase (ls ++ between ++ ms) := by
  obtain ⟨l, hl, hlast⟩ := hls.last
  obtain ⟨m, hm, hfirst⟩ := hms.first
  obtain ⟨k, hk, hkfirst⟩ := hls.first
  obtain ⟨j, hj, hjlast⟩ := hms.last
  refine ⟨?_, ?_, ⟨k, ?_, hkfirst⟩, ⟨j, ?_, hjlast⟩⟩
  · intro n hn
    rw [List.mem_append, List.mem_append] at hn
    obtain (hn | hn) | hn := hn
    · exact hls.proper n hn
    · exact hproper n hn
    · exact hms.proper n hn
  · obtain ⟨front, rfl⟩ := List.getLast?_eq_some_iff.mp hl
    obtain ⟨back, rfl⟩ := List.head?_eq_some_iff.mp hm
    have hback : (l :: between ++ m :: back).IsChain Apart :=
      List.isChain_split.mpr ⟨hchain l m hlast hfirst, hms.apart⟩
    rw [List.append_assoc, List.append_assoc, List.singleton_append]
    exact List.isChain_split.mpr ⟨hls.apart, hback⟩
  · rw [List.append_assoc, List.head?_append, hk]
    rfl
  · rw [List.getLast?_append, hj]
    rfl

theorem IsPhrase.grouped {ls : List Lexeme} (h : IsPhrase ls) (needed : Bool) :
    IsPhrase (grouped needed ls) := by
  have hopening : IsFirst (.mark .opening) := .mark (by decide)
  have hapart : ∀ n ∈ firstMarks, ∀ c ∈ n.chars.head?, Mark.opening.grows c = false := by
    decide
  cases needed with
  | false => exact h
  | true =>
    obtain ⟨l, hl, hfirst⟩ := h.first
    obtain ⟨m, hm, hlast⟩ := h.last
    have hclosed : (ls ++ [Lexeme.mark .closing]).IsChain Apart := by
      refine h.apart.append (List.isChain_singleton _) fun x hx y hy => ?_
      rw [List.head?_cons, Option.mem_some_iff] at hy
      rw [hm, Option.mem_some_iff] at hx
      exact hx ▸ hy ▸ hlast.apart_mark (by decide)
    refine ⟨?_, ?_, ⟨_, rfl, hopening⟩, ⟨_, List.getLast?_concat, .closing⟩⟩
    · intro n hn
      rw [Lexeme.grouped, if_pos rfl, List.mem_append, List.mem_cons, List.mem_singleton] at hn
      obtain (rfl | hn) | rfl := hn
      · exact hopening.isProper
      · exact h.proper n hn
      · exact (by decide : Mark.closing ∈ Mark.all)
    · rw [Lexeme.grouped, if_pos rfl, List.cons_append]
      refine List.isChain_cons.mpr ⟨fun y hy => ?_, hclosed⟩
      rw [List.head?_append, hl, Option.some_or, Option.mem_some_iff] at hy
      exact hy ▸ hfirst.apart_mark hapart

/-- A mark that only the tilde lengthens stays apart from a phrase that does not begin with one. -/
theorem IsPhrase.apart_of_not_tilde {m : Mark} {ls : List Lexeme} (h : IsPhrase ls)
    (hm : ∀ n ∈ firstMarks, n ≠ .operator .complement → ∀ c ∈ n.chars.head?, m.grows c = false)
    (htilde : (text ls).startsWith (· == '~') = false) :
    ∀ l, ls.head? = some l → Apart (.mark m) l := by
  intro l hl
  obtain ⟨k, hk, hfirst⟩ := h.first
  obtain rfl : k = l := Option.some_inj.mp (hk.symm.trans hl)
  cases hfirst with
  | word htext => exact apart_mark_word m htext
  | number n => exact apart_mark_number m n
  | @mark n hn =>
    refine apart_mark_mark (hm n hn ?_)
    rintro rfl
    obtain ⟨rest, rfl⟩ := List.head?_eq_some_iff.mp hl
    rw [text_cons] at htilde
    exact Bool.false_ne_true (htilde.symm.trans rfl)

end Lexeme

namespace Operator

open Lexeme

theorem isChain_between {op : Operator} (hop : op.isBinary = true) {l m : Lexeme}
    (hl : l.IsLast) (hm : m.IsFirst) : (l :: op.between ++ [m]).IsChain Apart := by
  have check : ∀ op ∈ all, op.isBinary = true → op.isWord = false →
      op.lexeme = .mark (.operator op) ∧ ∀ n ∈ firstMarks, ∀ c ∈ n.chars.head?,
        (Mark.operator op).grows c = false := by decide
  rw [between]
  split
  · simp [apart_blank, apart_blank_left]
  · rename_i hword
    rw [Bool.not_eq_true] at hword
    obtain ⟨hlexeme, hgrows⟩ := check op (mem_all op) hop hword
    have hproper := isProper_lexeme op
    rw [hlexeme] at hproper ⊢
    simp [hl.apart_mark hproper, hm.apart_mark hgrows]

theorem eq_of_isUnary {op : Operator} (h : op.isUnary = true) :
    op = .bang ∨ op = .complement ∨ op = .positive ∨ op = .negative ∨ op = .wordNot := by
  have check : ∀ op ∈ all, op.isUnary = true → op = .bang ∨ op = .complement ∨ op = .positive ∨
      op = .negative ∨ op = .wordNot := by decide
  exact check op (mem_all op) h

theorem isProper_between (op : Operator) : ∀ l ∈ op.between, l.IsProper := by
  have hblank : IsProper .blank := trivial
  rw [between]
  split <;> simp [hblank, isProper_lexeme op]

end Operator

namespace Expr

open Lexeme

theorem isFirst_name (x : Name) : IsFirst (.word x.text) := .word x.isIdentifier

/-- An operator before a phrase; a blank keeps apart what would be read as one mark. -/
theorem isPhrase_unaryLexemes {op : Operator} (hop : op.isUnary = true) (binds : Bool)
    {inner : List Lexeme} (h : IsPhrase inner) : IsPhrase (unaryLexemes op binds inner) := by
  have hblank : ∀ l ∈ [Lexeme.blank], l.IsProper := by simp [IsProper]
  have hnone : ∀ l ∈ ([] : List Lexeme), l.IsProper := by simp
  obtain rfl | rfl | rfl | rfl | rfl := Operator.eq_of_isUnary hop
  · have hgrows : ∀ n ∈ firstMarks, n ≠ .operator .complement → ∀ c ∈ n.chars.head?,
        (Mark.operator .bang).grows c = false := by decide
    have hfirst : IsFirst Operator.bang.lexeme := .mark (by decide)
    rw [unaryLexemes]
    split
    · exact h.after hfirst [.blank] hblank fun m _ _ => by simp [apart_blank, apart_blank_left]
    · rename_i hgap
      refine h.after hfirst [] hnone fun m hm _ => List.isChain_pair.mpr ?_
      refine h.apart_of_not_tilde hgrows ?_ m hm
      rw [Bool.eq_false_iff]
      intro htilde
      rw [Text.startsWith] at htilde hgap
      split at htilde
      · exact hgap (by simp_all)
      · exact Bool.false_ne_true htilde
  · have hgrows : ∀ n ∈ firstMarks, ∀ c ∈ n.chars.head?,
        (Mark.operator .complement).grows c = false := by decide
    exact h.after (.mark (by decide)) [] hnone fun m _ hm =>
      List.isChain_pair.mpr (hm.apart_mark hgrows)
  · have hgrows : ∀ n ∈ firstMarks, ∀ c ∈ n.chars.head?,
        (Mark.operator .plus).grows c = false := by decide
    exact (h.grouped _).after (.mark (by decide)) [] hnone fun m _ hm =>
      List.isChain_pair.mpr (hm.apart_mark hgrows)
  · have hgrows : ∀ n ∈ firstMarks, ∀ c ∈ n.chars.head?,
        (Mark.operator .minus).grows c = false := by decide
    exact (h.grouped _).after (.mark (by decide)) [] hnone fun m _ hm =>
      List.isChain_pair.mpr (hm.apart_mark hgrows)
  · exact h.after (.word (by decide)) [.blank] hblank fun m _ _ => by
      simp [apart_blank, apart_blank_left]

theorem isPhrase_assignLexemes (x : Name) {inner : List Lexeme} (h : IsPhrase inner) :
    IsPhrase (assignLexemes x inner) := by
  have hassign : Mark.operator .assign ∈ Mark.all := by decide
  have hname := apart_word_mark x.text hassign
  have hgrows : ∀ n ∈ firstMarks, n ≠ .operator .complement → ∀ c ∈ n.chars.head?,
      (Mark.operator .assign).grows c = false := by decide
  rw [assignLexemes]
  split
  · refine h.after (isFirst_name x) [Operator.assign.lexeme, .blank] ?_ fun m _ _ => ?_
    · simpa [IsProper, Operator.lexeme] using hassign
    · simpa [Operator.lexeme, apart_blank, apart_blank_left] using hname
  · rename_i hgap
    refine h.after (isFirst_name x) [Operator.assign.lexeme] ?_ fun m hm _ => ?_
    · simpa [IsProper, Operator.lexeme] using hassign
    · have hvalue := h.apart_of_not_tilde hgrows (Bool.eq_false_iff.mpr hgap) m hm
      simpa [Operator.lexeme] using ⟨hname, hvalue⟩

theorem isPhrase_integer (n : Int) : IsPhrase (integer n).lexemes := by
  have hnumber := IsPhrase.singleton (.number n.natAbs) (.number n.natAbs)
  rw [lexemes]
  split
  · refine hnumber.after (l := Operator.negative.lexeme) (.mark (by decide)) []
      (fun _ hl => nomatch hl) fun m hm _ => List.isChain_pair.mpr ?_
    rw [List.head?_cons, Option.some_inj] at hm
    exact hm ▸ apart_mark_number _ n.natAbs
  · exact hnumber

theorem isPhrase_send {inner : List Lexeme} (h : IsPhrase inner) (x : Name) :
    IsPhrase (inner ++ [.mark .dot, .word x.text]) := by
  have hdot : Mark.dot ∈ Mark.all := by decide
  have hname := IsPhrase.singleton (isFirst_name x) (.word x.isIdentifier)
  have hgrows : ∀ n ∈ firstMarks, ∀ c ∈ n.chars.head?, Mark.dot.grows c = false := by
    decide
  have hphrase := h.append hname [.mark .dot] (by simpa [IsProper] using hdot)
    fun l m hl hm => by simp [hl.apart_mark hdot, hm.apart_mark hgrows]
  simpa using hphrase

/-- **Every expression is written as a phrase.** -/
theorem isPhrase_lexemes (e : Expr) : IsPhrase e.lexemes := by
  induction e with
  | var x => exact .singleton (isFirst_name x) (.word x.isIdentifier)
  | integer n => exact isPhrase_integer n
  | unary op e ih => exact isPhrase_unaryLexemes op.2 e.bindsToSign (ih.grouped _)
  | binary op l r ihl ihr =>
    exact (ihl.grouped _).append (ihr.grouped _) op.1.between (Operator.isProper_between op)
      fun _ _ hl hm => Operator.isChain_between op.2 hl hm
  | assign x e ih => exact isPhrase_assignLexemes x (ih.grouped _)
  | send e x ih => exact isPhrase_send (ih.grouped _) x

/-- The lexer gives back the lexemes of an expression. -/
theorem scan_lexemes (o : Options) (e : Expr) : scan ((text e.lexemes).spell o) = e.lexemes :=
  scan_text o e.isPhrase_lexemes.proper e.isPhrase_lexemes.apart

end Expr
end TerseRuby
