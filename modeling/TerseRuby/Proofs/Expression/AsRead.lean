import TerseRuby.Proofs.Expression.Reader
import TerseRuby.Proofs.Expression.Tree

/-!
# Reading back what was written

An expression that was written is read back as itself, up to two changes that the writer makes on
purpose.  The table of operators lets an operand on the right of the same associative operator
stand without parentheses, and then the chain is read from the left; and a sign before a literal
that has none is read as the sign of the literal.  `Expr.asRead` makes these changes, and
`Expr.operand_lexemes` says that the reader finds just that.

The proof is by induction on the expression, with two statements at once.  The first, `Reads`, is
about an operand that everything around leaves alone: the operators that wait for it have a rank
below its own, and what comes after it completes it.  The second, `Joins`, is about an operand on
the right of an associative operator of its own rank.  There the operator that waits takes the
leftmost part of the operand, and the rest of the operand is built on top of that
(`Expr.attach`).
-/

set_option autoImplicit false

namespace TerseRuby

namespace Operator

/-- An associative operator groups to the left. -/
theorem associativity_of_associative {op : Operator} (h : op.facts.associative = true) :
    op.facts.associativity = .left := by
  cases op <;> first | rfl | exact nomatch h

/-- All operators of the rank of an associative operator are associative, and of low rank. -/
theorem associative_of_precedence_eq {op op' : Operator} (h : op.facts.associative = true)
    (heq : op'.precedence = op.precedence) : op'.facts.associative = true := by
  have check : ∀ op ∈ all, ∀ op' ∈ all, op.facts.associative = true →
      op'.precedence = op.precedence → op'.facts.associative = true := by decide
  exact check op (mem_all op) op' (mem_all op') h heq

theorem bound_of_associative {op : Operator} (h : op.facts.associative = true) :
    op.bound = op.precedence := by
  rw [bound, if_pos (associativity_of_associative h)]

theorem least_of_associative {op : Operator} (h : op.facts.associative = true) :
    op.least = op.precedence + 1 := by
  rw [least, associativity_of_associative h, if_neg (by decide)]

theorem operator?_lexeme {op : Operator} (h : op.isBinary = true) :
    op.lexeme.operator? = some op := by
  have check : ∀ op ∈ all, op.isBinary = true → op.lexeme.operator? = some op := by decide
  exact check op (mem_all op) h

/-- A chain of an associative operator needs no parentheses. -/
theorem not_needsParens_self {op : Operator} (h : op.facts.associative = true) (side : Side) :
    op.needsParens op side = false := by
  cases op <;> first | rfl | exact nomatch h

/-- An operand without parentheses on the left is read as one: its operator completes. -/
theorem le_bound_of_not_needsParens {child parent : Operator}
    (h : child.needsParens parent .left = false) :
    parent.precedence ≤ child.precedence ∧ parent.precedence ≤ child.bound := by
  have hbound := child.le_bound
  rw [needsParens] at h
  split at h
  · rename_i hne
    rw [bne_iff_ne] at hne
    rw [decide_eq_false_iff_not] at h
    omega
  · rename_i heq
    have heq : child.precedence = parent.precedence := by simpa using heq
    have hleft : child.facts.associativity = .left := by
      split at h
      · rename_i hchain
        simp only [Bool.and_eq_true] at hchain
        exact associativity_of_associative hchain.1.2
      · rw [associativity_eq heq]
        split at h
        · assumption
        · exact nomatch h
        · exact nomatch h
    rw [bound, if_pos hleft]
    omega

/-- On the left of an associative operator, only operators of lower rank need parentheses. -/
theorem precedence_lt_of_needsParens {child parent : Operator}
    (h : child.needsParens parent .left = true) (hparent : parent.facts.associative = true) :
    child.precedence < parent.precedence := by
  rw [needsParens] at h
  split at h
  · exact of_decide_eq_true h
  · split at h
    · exact nomatch h
    · rw [associativity_of_associative hparent] at h
      exact nomatch h

/-- An operand without parentheses on the right, unless it continues a chain. -/
theorem least_le_of_not_needsParens {child parent : Operator}
    (h : child.needsParens parent .right = false)
    (hchain : (child == parent && parent.facts.associative) = false) :
    parent.least ≤ child.precedence ∧ parent.bound ≤ child.bound := by
  have hleast := parent.least_le
  have hbound := child.le_bound
  have hbound' := parent.bound_le
  rw [needsParens] at h
  split at h
  · rename_i hne
    rw [bne_iff_ne] at hne
    rw [decide_eq_false_iff_not] at h
    omega
  · rename_i heq
    have heq : child.precedence = parent.precedence := by simpa using heq
    have hright : parent.facts.associativity = .right := by
      split at h
      · rename_i hsame
        simp only [Bool.and_eq_true, beq_iff_eq] at hsame
        rw [← hsame.1.1, hsame.1.2, beq_self_eq_true] at hchain
        exact nomatch hchain
      · split at h
        · exact nomatch h
        · assumption
        · exact nomatch h
    rw [least, if_pos hright, bound, bound, associativity_eq heq, hright, heq]
    exact ⟨le_rfl, le_rfl⟩

end Operator

namespace Expr

open Lexeme (grouped)
open Reader (Frame Follows operand operator)

/-! ## Ranks of expressions -/

/-- The rank of an expression; what is no application of an operator is above all ranks. -/
def rank (e : Expr) : Nat := e.operator?.elim 100 Operator.precedence

/-- The highest rank of an operator that may follow an expression. -/
def bound (e : Expr) : Nat := e.operator?.elim 100 Operator.bound

/-- Whether an operand on the right of an operator continues a chain of that operator. -/
def isChained (r : Expr) (op : Operator) : Bool :=
  r.operator?.any fun child => child == op && op.facts.associative

theorem rank_le_bound (e : Expr) : e.rank ≤ e.bound + 1 := by
  rw [rank, bound]
  cases e.operator? with
  | none => decide
  | some op => exact op.le_bound

theorem le_bound_of_not_needsParens {e : Expr} {op : Operator}
    (h : e.needsParens op .left = false) : op.precedence ≤ e.rank ∧ op.precedence ≤ e.bound := by
  have hrank := op.precedence_lt
  rw [needsParens] at h
  rw [rank, bound]
  cases hop : e.operator? with
  | none => exact ⟨hrank.le, hrank.le⟩
  | some child =>
    rw [hop] at h
    exact Operator.le_bound_of_not_needsParens h

theorem least_le_of_not_needsParens {e : Expr} {op : Operator}
    (h : e.needsParens op .right = false) (hchain : e.isChained op = false) :
    op.least ≤ e.rank ∧ op.bound ≤ e.bound := by
  have hrank := op.precedence_lt
  have hleast := op.least_le
  have hbound := op.bound_le
  rw [needsParens] at h
  rw [isChained] at hchain
  rw [rank, bound]
  cases hop : e.operator? with
  | none => exact ⟨by simp only [Option.elim_none]; omega, by simp only [Option.elim_none]; omega⟩
  | some child =>
    rw [hop] at h hchain
    exact Operator.least_le_of_not_needsParens h hchain

/-! ## What is read -/

/-- An operand on the right of an operator, where all parentheses around operands of the rank of
the operator are gone: the operator takes the leftmost of them. -/
def attach (op : BinaryOperator) (l : Expr) : Expr → Expr
  | .binary op' r s =>
    if op'.1.precedence = op.1.precedence then .binary op' (attach op l r) s
    else .binary op l (.binary op' r s)
  | r => .binary op l r

/-- The literal that a sign before a literal makes. -/
def signed? (op : Operator) : Expr → Option Int
  | .integer (.ofNat n) =>
    match op with
    | .positive => some n
    | .negative => some (-n)
    | _ => none
  | _ => none

/-- The expression that the reader finds in what is written for an expression. -/
def asRead : Expr → Expr
  | .var x => .var x
  | .integer n => .integer n
  | .unary op e =>
    match e.signed? op with
    | some n => .integer n
    | none => .unary op e.asRead
  | .binary op l r =>
    if r.isChained op then attach op l.asRead r.asRead else .binary op l.asRead r.asRead
  | .assign x e => .assign x e.asRead
  | .send e x => .send e.asRead x

/-- Attaching yields an operator of the same rank. -/
theorem exists_attach_eq (op : BinaryOperator) (l r : Expr) :
    ∃ op' s t, attach op l r = .binary op' s t ∧ op'.1.precedence = op.1.precedence := by
  cases r with
  | binary op' r s =>
    rw [attach]
    split
    · exact ⟨op', _, _, rfl, by assumption⟩
    · exact ⟨op, _, _, rfl, rfl⟩
  | _ => exact ⟨op, _, _, rfl, rfl⟩

/-- Nothing of another rank is changed by attaching. -/
theorem attach_asRead {op : BinaryOperator} {e : Expr} (h : e.rank ≠ op.1.precedence) (l : Expr) :
    attach op l e.asRead = .binary op l e.asRead := by
  cases e with
  | unary op' e =>
    rw [asRead]
    split <;> rfl
  | binary op' r s =>
    have hroot : ∃ p x y, (Expr.binary op' r s).asRead = .binary p x y ∧
        p.1.precedence = op'.1.precedence := by
      rw [asRead]
      split
      · exact exists_attach_eq op' r.asRead s.asRead
      · exact ⟨op', _, _, rfl, rfl⟩
    obtain ⟨p, x, y, heq, hp⟩ := hroot
    rw [heq, attach, if_neg (hp ▸ h)]
  | _ => rfl

theorem attach_binary {op p : BinaryOperator} (h : p.1.precedence = op.1.precedence)
    (l x r : Expr) : attach op l (.binary p x r) = .binary p (attach op l x) r := by
  rw [attach, if_pos h]

/-- Attaching reaches below what was attached before. -/
theorem attach_attach {op p : BinaryOperator} (h : p.1.precedence = op.1.precedence)
    (l x r : Expr) : attach op l (attach p x r) = attach p (attach op l x) r := by
  induction r with
  | binary op' r s ihr ihs =>
    rw [attach, attach]
    split
    · rename_i heq
      rw [attach_binary (heq.trans h), ihr]
    · exact attach_binary h l x _
  | _ => exact attach_binary h l x _

/-! ## Operands that are left alone -/

/-- The lexemes are read as the operand `e` if what waits for it leaves operands of the given rank
alone, and what comes after it completes operators of a rank above the given bound. -/
def Reads (ls : List Lexeme) (e : Expr) (rank bound : Nat) : Prop :=
  ∀ k rest, Reader.least k ≤ rank → Follows bound rest → operand k (ls ++ rest) = operator k e rest

theorem Reads.mono {ls : List Lexeme} {e : Expr} {rank bound rank' bound' : Nat}
    (h : Reads ls e rank bound) (hrank : rank' ≤ rank) (hbound : bound' ≤ bound) :
    Reads ls e rank' bound' :=
  fun k rest hk hrest => h k rest (hk.trans hrank) (hrest.mono hbound)

/-- Parentheses keep everything away from an operand. -/
theorem Reads.parenthesized {ls : List Lexeme} {e : Expr} {rank bound : Nat}
    (h : Reads ls e rank bound) (rank' bound' : Nat) :
    Reads (grouped true ls) e rank' bound' := by
  intro k rest _ _
  have hgroup := h (.group :: k) (.mark .closing :: rest) (Nat.zero_le _) (.closing _)
  rw [grouped, if_pos rfl, List.append_assoc, List.cons_append, List.singleton_append, operand,
    hgroup, operator]
  rfl

theorem Reads.groupedIf {ls : List Lexeme} {e : Expr} {rank bound : Nat}
    (h : Reads ls e rank bound) (needed : Bool) : Reads (grouped needed ls) e rank bound := by
  cases needed with
  | false => exact h
  | true => exact h.parenthesized rank bound

/-- An operand on the left of an operator. -/
theorem Reads.left {e e' : Expr} (h : Reads e.lexemes e' e.rank e.bound) (op : Operator) :
    Reads (grouped (e.needsParens op .left) e.lexemes) e' op.precedence op.precedence := by
  cases hparens : e.needsParens op .left with
  | true => exact h.parenthesized _ _
  | false =>
    obtain ⟨hrank, hbound⟩ := le_bound_of_not_needsParens hparens
    exact h.mono hrank hbound

/-- An operand on the right of an operator, unless it continues a chain. -/
theorem Reads.right {e e' : Expr} {op : Operator} (h : Reads e.lexemes e' e.rank e.bound)
    (hchain : e.isChained op = false) :
    Reads (grouped (e.needsParens op .right) e.lexemes) e' op.least op.bound := by
  cases hparens : e.needsParens op .right with
  | true => exact h.parenthesized _ _
  | false =>
    obtain ⟨hrank, hbound⟩ := least_le_of_not_needsParens hparens hchain
    exact h.mono hrank hbound

theorem follows_between (op : BinaryOperator) (ls : List Lexeme) :
    Follows op.1.precedence (op.1.between ++ ls) := by
  have hlexeme := Operator.operator?_lexeme op.2
  rw [Operator.between]
  split
  · exact .blank (.operator _ hlexeme le_rfl)
  · exact .operator _ hlexeme le_rfl

/-- Between two operands, an operator that nothing before it is complete with. -/
theorem operator_between {op : BinaryOperator} {k : List Frame}
    (hk : Reader.least k ≤ op.1.precedence) (e : Expr) (ls : List Lexeme) :
    operator k e (op.1.between ++ ls) = operand (.binary op e :: k) ls := by
  have hframe : Frame.ofOperator? op.1 e = some (.binary op e) := by
    unfold Frame.ofOperator?
    rw [dif_pos op.2]
  have hlexeme := Operator.operator?_lexeme op.2
  have hbare (ls : List Lexeme) :
      operator k e (op.1.lexeme :: ls) = operand (.binary op e :: k) ls := by
    rw [Reader.operator_operator hlexeme, Reader.reduce_of_least_le hk, Option.bind_some, hframe]
    rfl
  rw [Operator.between]
  split
  · rw [List.cons_append, operator, List.cons_append, hbare, List.cons_append, operand]
    rfl
  · exact hbare ls

/-! ## Operands that continue a chain -/

/-- The lexemes are read as the operand `e` on the right of an associative operator of at most its
rank: the operator takes the leftmost part of it. -/
def Joins (ls : List Lexeme) (e : Expr) (rank : Nat) : Prop :=
  ∀ (op : BinaryOperator) (l : Expr) (k : List Frame) (rest : List Lexeme),
    op.1.facts.associative = true → op.1.precedence ≤ rank → Reader.least k ≤ op.1.precedence →
      Follows op.1.precedence rest →
        operand (.binary op l :: k) (ls ++ rest) = operator k (attach op l e) rest

theorem isChained_iff {r : Expr} {op : Operator} :
    r.isChained op = true ↔ r.operator? = some op ∧ op.facts.associative = true := by
  rw [isChained, Option.any_eq_true]
  simp only [Bool.and_eq_true, beq_iff_eq]
  constructor
  · rintro ⟨child, hchild, rfl, hassociative⟩
    exact ⟨hchild, hassociative⟩
  · rintro ⟨hchild, hassociative⟩
    exact ⟨op, hchild, rfl, hassociative⟩

/-- What the two operands of an operator are read as, given what the left one is read as. -/
def join (op : BinaryOperator) (l r : Expr) : Expr :=
  if r.isChained op then attach op l r.asRead else .binary op l r.asRead

/-- The operand on the right of an operator, whether it continues a chain or not. -/
theorem operand_right {op : BinaryOperator} {r : Expr}
    (hreads : Reads r.lexemes r.asRead r.rank r.bound) (hjoins : Joins r.lexemes r.asRead r.rank)
    {k : List Frame} (hk : Reader.least k ≤ op.1.precedence) (l : Expr) {rest : List Lexeme}
    (hrest : Follows op.1.bound rest) :
    operand (.binary op l :: k) (grouped (r.needsParens op .right) r.lexemes ++ rest) =
      operator k (join op l r) rest := by
  rw [join]
  cases hchain : r.isChained op with
  | true =>
    obtain ⟨hop, hassociative⟩ := isChained_iff.mp hchain
    have hparens : r.needsParens op .right = false := by
      rw [needsParens, hop, Option.any_some, Operator.not_needsParens_self hassociative]
    have hrank : r.rank = op.1.precedence := by rw [rank, hop]; rfl
    rw [hparens, if_pos rfl]
    rw [Operator.bound_of_associative hassociative] at hrest
    exact hjoins op l k rest hassociative hrank.ge hk hrest
  | false =>
    rw [hreads.right hchain (.binary op l :: k) rest le_rfl hrest,
      Reader.operator_fill rfl hrest, if_neg Bool.false_ne_true]
    rfl

theorem asRead_binary (op : BinaryOperator) (l r : Expr) :
    (Expr.binary op l r).asRead = join op l.asRead r := rfl

theorem attach_join {op p : BinaryOperator} (h : p.1.precedence = op.1.precedence)
    (l x r : Expr) : attach op l (join p x r) = join p (attach op l x) r := by
  rw [join, join]
  split
  · exact attach_attach h l x r.asRead
  · exact attach_binary h l x r.asRead

theorem reads_binary (op : BinaryOperator) {l r : Expr}
    (hl : Reads l.lexemes l.asRead l.rank l.bound) (hr : Reads r.lexemes r.asRead r.rank r.bound)
    (hjoins : Joins r.lexemes r.asRead r.rank) :
    Reads (Expr.binary op l r).lexemes (Expr.binary op l r).asRead (Expr.binary op l r).rank
      (Expr.binary op l r).bound := by
  intro k rest hk hrest
  rw [lexemes, List.append_assoc, List.append_assoc, hl.left op k _ hk (follows_between op _),
    operator_between hk, operand_right hr hjoins hk _ hrest, asRead_binary]

/-- An operand of a higher rank is left alone even by a chain. -/
theorem Reads.joins {e : Expr} (h : Reads e.lexemes e.asRead e.rank e.bound)
    (op : BinaryOperator) (l : Expr) (k : List Frame) {rest : List Lexeme}
    (hassociative : op.1.facts.associative = true) (hrank : op.1.precedence < e.rank)
    (hrest : Follows op.1.precedence rest) :
    operand (.binary op l :: k) (e.lexemes ++ rest) = operator k (attach op l e.asRead) rest := by
  have hbound := e.rank_le_bound
  have hleast : Reader.least (.binary op l :: k) ≤ e.rank := by
    change op.1.least ≤ e.rank
    rw [Operator.least_of_associative hassociative]
    exact hrank
  rw [h _ rest hleast (hrest.mono (by omega)), attach_asRead hrank.ne',
    Reader.operator_fill rfl (Operator.bound_of_associative hassociative ▸ hrest)]
  rfl

/-- On the left of an operator of the rank of the chain, an operand is a part of it or has
parentheses. -/
theorem operand_left {p op : BinaryOperator} (h : p.1.precedence = op.1.precedence)
    (hassociative : op.1.facts.associative = true) {l : Expr}
    (hreads : Reads l.lexemes l.asRead l.rank l.bound) (hjoins : Joins l.lexemes l.asRead l.rank)
    {k : List Frame} (hk : Reader.least k ≤ op.1.precedence) (x : Expr) {rest : List Lexeme}
    (hrest : Follows op.1.precedence rest) :
    operand (.binary op x :: k) (grouped (l.needsParens p .left) l.lexemes ++ rest) =
      operator k (attach op x l.asRead) rest := by
  cases hparens : l.needsParens p .left with
  | true =>
    have hne : l.rank ≠ op.1.precedence := by
      rw [needsParens] at hparens
      obtain ⟨child, hchild, hparens⟩ := (Option.any_eq_true _ _).mp hparens
      have hlt := Operator.precedence_lt_of_needsParens hparens
        (Operator.associative_of_precedence_eq hassociative h)
      rw [rank, hchild, Option.elim_some, ← h]
      exact hlt.ne
    rw [hreads.parenthesized (Reader.least (.binary op x :: k)) op.1.precedence _ rest le_rfl hrest,
      attach_asRead hne,
      Reader.operator_fill rfl (Operator.bound_of_associative hassociative ▸ hrest)]
    rfl
  | false =>
    have hrank := (le_bound_of_not_needsParens hparens).1
    exact hjoins op x k rest hassociative (h ▸ hrank) hk hrest

theorem joins_binary (p : BinaryOperator) {l r : Expr}
    (hl : Reads l.lexemes l.asRead l.rank l.bound) (hljoins : Joins l.lexemes l.asRead l.rank)
    (hr : Reads r.lexemes r.asRead r.rank r.bound) (hrjoins : Joins r.lexemes r.asRead r.rank) :
    Joins (Expr.binary p l r).lexemes (Expr.binary p l r).asRead (Expr.binary p l r).rank := by
  intro op x k rest hassociative hrank hk hrest
  obtain heq | hlt := hrank.eq_or_lt
  · have hp : p.1.precedence = op.1.precedence := heq.symm
    have hkp : Reader.least k ≤ p.1.precedence := hp ▸ hk
    have hprest : Follows p.1.bound rest := by
      rw [Operator.bound_of_associative (Operator.associative_of_precedence_eq hassociative hp), hp]
      exact hrest
    rw [lexemes, List.append_assoc, List.append_assoc,
      operand_left hp hassociative hl hljoins hk x (hp ▸ follows_between p _),
      operator_between hkp, operand_right hr hrjoins hkp _ hprest, asRead_binary, attach_join hp]
  · exact (reads_binary p hl hr hrjoins).joins op x k hassociative hlt hrest

/-! ## Operators before an operand -/

theorem not_isChained_unary (op : UnaryOperator) (e : Expr) : e.isChained op = false := by
  rw [Bool.eq_false_iff]
  intro h
  have hassociative := (isChained_iff.mp h).2
  obtain hop | hop | hop | hop | hop := Operator.eq_of_isUnary op.2 <;>
    rw [hop] at hassociative <;> exact nomatch hassociative

/-- An operator that waits for an operand, and the operand. -/
theorem operator_unary {op : UnaryOperator} {ls : List Lexeme} {e : Expr}
    (h : Reads ls e op.1.least op.1.bound) (k : List Frame) {rest : List Lexeme}
    (hrest : Follows op.1.bound rest) :
    operand (.unary op :: k) (ls ++ rest) = operator k (.unary op e) rest := by
  rw [h _ rest le_rfl hrest, Reader.operator_fill rfl hrest]
  rfl

/-- What begins with a number begins with a digit. -/
theorem startsWith_isDigit (n : Nat) (ls : List Lexeme) :
    (Lexeme.text (.number n :: ls)).startsWith CharClass.isDigit = true := by
  have check : ∀ c ∈ "0123456789".toList, CharClass.isDigit c = true := by decide
  obtain ⟨c, cs, hchars⟩ := List.exists_cons_of_ne_nil (Nat.toDigits_ne_nil (b := 10) (n := n))
  have hc : c ∈ Decimal.natText n := by
    rw [Decimal.natText, hchars]
    exact List.mem_cons_self
  rw [Lexeme.text_cons, Lexeme.glyphs, Decimal.natText, hchars]
  exact @Decimal.forall_isDigit (fun c => CharClass.isDigit c = true) check c
    (Decimal.isDigit_of_mem_natText hc)

theorem lexemes_ofNat (n : Nat) : (integer (.ofNat n)).lexemes = [.number n] := rfl

theorem lexemes_negSucc (n : Nat) :
    (integer (.negSucc n)).lexemes = [.mark (.operator .minus), .number (n + 1)] := by
  rw [lexemes, if_pos (Int.negSucc_lt_zero n)]
  rfl

theorem operator?_negSucc (n : Nat) : (integer (.negSucc n)).operator? = some .negative := by
  rw [operator?, if_pos (Int.negSucc_lt_zero n)]

/-- What begins with a number and does not keep a sign away is a literal or a power of one. -/
theorem lexemes_of_not_bindsToSign {e : Expr} (hbinds : e.bindsToSign = false) {n : Nat}
    {ls : List Lexeme} (hlexemes : e.lexemes = .number n :: ls) :
    e = .integer n ∨ e.operator? = some .power ∧ ∃ ms, ls = .mark (.operator .power) :: ms := by
  cases e with
  | integer m =>
    cases m with
    | ofNat m =>
      rw [lexemes_ofNat] at hlexemes
      cases hlexemes
      exact .inl rfl
    | negSucc m =>
      rw [lexemes_negSucc] at hlexemes
      cases hlexemes
  | binary op l r =>
    obtain ⟨op, hop⟩ := op
    rw [bindsToSign, Bool.not_eq_false', Bool.and_eq_true, beq_iff_eq] at hbinds
    obtain ⟨rfl, hl⟩ := hbinds
    refine .inr ⟨rfl, ?_⟩
    cases l with
    | integer m =>
      cases m with
      | ofNat m => cases hlexemes; exact ⟨_, rfl⟩
      | negSucc m =>
        rw [lexemes, needsParens, operator?_negSucc] at hlexemes
        cases hlexemes
    | _ => exact absurd hl Bool.false_ne_true
  | _ => exact absurd hbinds.symm Bool.false_ne_true

/-- What begins with a number has no parentheses around it. -/
theorem eq_false_of_grouped {needed : Bool} {ls ms : List Lexeme} {n : Nat}
    (h : grouped needed ls = .number n :: ms) : needed = false := by
  cases needed with
  | false => rfl
  | true => exact nomatch h

/-- What a sign would be read into although it is no literal is a power of one. -/
theorem power_of_afterSign {op : UnaryOperator} (hop : op.1 = .positive ∨ op.1 = .negative)
    {e : Expr} (hsigned : e.signed? op = none) {inner : List Lexeme}
    (hinner : inner = grouped (e.needsParens op .right) e.lexemes) {n : Nat} {ls : List Lexeme}
    (h : afterSign e.bindsToSign inner = .number n :: ls) :
    op.1 = .negative ∧ ∃ ms, ls = .mark (.operator .power) :: ms := by
  have hglued := eq_false_of_grouped h
  rw [afterSign, hglued] at h
  obtain rfl : inner = .number n :: ls := h
  have hparens := eq_false_of_grouped hinner.symm
  have hlexemes : e.lexemes = .number n :: ls := by
    rw [hinner, hparens]
    rfl
  have hbinds : e.bindsToSign = false := by
    rwa [startsWith_isDigit, Bool.true_and] at hglued
  obtain rfl | ⟨hpower, hms⟩ := lexemes_of_not_bindsToSign hbinds hlexemes
  · obtain ⟨op, hunary⟩ := op
    obtain rfl | rfl := hop <;> exact nomatch hsigned
  · refine ⟨hop.resolve_left fun hpositive => ?_, hms⟩
    rw [needsParens, hpower, hpositive] at hparens
    exact nomatch hparens

/-- A sign before an operand that is no literal is an operator, also where the operand begins with
a digit. -/
theorem operand_sign {op : UnaryOperator} (hop : op.1 = .positive ∨ op.1 = .negative) {e : Expr}
    (hsigned : e.signed? op = none) {inner : List Lexeme}
    (hinner : inner = grouped (e.needsParens op .right) e.lexemes) (k : List Frame)
    (rest : List Lexeme) :
    operand k (op.1.lexeme :: (afterSign e.bindsToSign inner ++ rest)) =
      operand (.unary op :: k) (afterSign e.bindsToSign inner ++ rest) := by
  have hunary : op.1.lexeme.unary? = some op := by
    obtain ⟨op, hop'⟩ := op
    obtain rfl | rfl := hop <;> rfl
  have hphrase : Lexeme.IsPhrase (afterSign e.bindsToSign inner) :=
    hinner ▸ (e.isPhrase_lexemes.grouped _).grouped _
  obtain ⟨l, hl, -⟩ := hphrase.first
  obtain ⟨ls, hls⟩ := List.head?_eq_some_iff.mp hl
  rw [hls, List.cons_append]
  by_cases hnumber : ∃ n, l = .number n
  · obtain ⟨n, rfl⟩ := hnumber
    obtain ⟨hnegative, ms, rfl⟩ := power_of_afterSign hop hsigned hinner hls
    obtain ⟨op, hop'⟩ := op
    obtain rfl : op = .negative := hnegative
    rfl
  · refine Reader.operand_unary hunary (fun _ n ms hms => hnumber ⟨n, ?_⟩) k
    exact (List.cons.inj hms).1

theorem afterSign_ofNat (n : Nat) :
    afterSign (integer (.ofNat n)).bindsToSign (integer (.ofNat n)).lexemes = [.number n] := by
  rw [afterSign, bindsToSign, Bool.and_false]
  rfl

/-- A literal takes the sign before it. -/
theorem operand_literal {op : UnaryOperator} {e : Expr} {n : Int} (h : e.signed? op = some n)
    (k : List Frame) {rest : List Lexeme} (hrest : Follows op.1.bound rest) :
    operand k ((Expr.unary op e).lexemes ++ rest) = operator k (.integer n) rest := by
  obtain ⟨op, hop⟩ := op
  cases e with
  | integer m =>
    cases m with
    | ofNat m =>
      obtain rfl | rfl | rfl | rfl | rfl := Operator.eq_of_isUnary hop
      · cases h
      · cases h
      · cases h
        change operand k (.mark (.operator .plus) :: (afterSign (integer (.ofNat m)).bindsToSign
          (integer (.ofNat m)).lexemes ++ rest)) = _
        rw [afterSign_ofNat]
        rfl
      · cases h
        change operand k (.mark (.operator .minus) :: (afterSign (integer (.ofNat m)).bindsToSign
          (integer (.ofNat m)).lexemes ++ rest)) = _
        have hbound : Operator.negative.bound < Operator.power.precedence := by decide
        rw [afterSign_ofNat, List.singleton_append, operand, hrest.not_power hbound]
        rfl
      · cases h
    | negSucc m => cases h
  | _ => cases h

theorem reads_unary (op : UnaryOperator) {e : Expr}
    (h : Reads e.lexemes e.asRead e.rank e.bound) :
    Reads (Expr.unary op e).lexemes (Expr.unary op e).asRead (Expr.unary op e).rank
      (Expr.unary op e).bound := by
  intro k rest hk hrest
  have hinner := h.right (not_isChained_unary op e)
  cases hsigned : e.signed? op with
  | some n =>
    rw [asRead, hsigned]
    exact operand_literal hsigned k hrest
  | none =>
    have hsign : Reads (afterSign e.bindsToSign (grouped (e.needsParens op .right) e.lexemes))
        e.asRead op.1.least op.1.bound := hinner.groupedIf _
    rw [asRead, hsigned, lexemes]
    obtain ⟨op, hop⟩ := op
    obtain rfl | rfl | rfl | rfl | rfl := Operator.eq_of_isUnary hop
    · rw [unaryLexemes]
      split
      · exact operator_unary hinner k hrest
      · exact operator_unary hinner k hrest
    · exact operator_unary hinner k hrest
    · exact (operand_sign (.inl rfl) hsigned rfl k rest).trans (operator_unary hsign k hrest)
    · exact (operand_sign (.inr rfl) hsigned rfl k rest).trans (operator_unary hsign k hrest)
    · exact operator_unary hinner k hrest

/-! ## All expressions -/

theorem reads_integer (n : Int) : Reads (integer n).lexemes (integer n) (integer n).rank
    (integer n).bound := by
  intro k rest hk hrest
  cases n with
  | ofNat n => rfl
  | negSucc n =>
    rw [bound, operator?_negSucc] at hrest
    rw [lexemes_negSucc, List.cons_append, List.cons_append, List.nil_append, operand,
      hrest.not_power (by decide)]
    rfl

theorem reads_var (x : Name) (rank bound : Nat) : Reads (var x).lexemes (var x) rank bound := by
  intro k rest _ _
  have hunary : (Lexeme.word x.text).unary? = none := by
    have hnot : x.text ≠ "not" := fun hx => x.not_keyword (hx ▸ by decide)
    unfold Lexeme.unary?
    split <;> simp_all
  rw [lexemes, List.singleton_append, operand, hunary]
  dsimp only
  rw [Name.ofText?_text]
  rfl

theorem reads_assign (x : Name) {e : Expr} (h : Reads e.lexemes e.asRead e.rank e.bound) :
    Reads (assign x e).lexemes (assign x e).asRead (assign x e).rank (assign x e).bound := by
  intro k rest hk hrest
  have hchain : e.isChained .assign = false := by
    rw [Bool.eq_false_iff]
    exact fun hchain => nomatch (isChained_iff.mp hchain).2
  have hvalue := h.right hchain
  have hequals (ls : List Lexeme) : operand k (.word x.text :: Operator.assign.lexeme :: ls) =
      operand (.assign x :: k) ls := by
    have hvar := reads_var x (Reader.least k) 4 k (Operator.assign.lexeme :: ls) le_rfl
      (.operator ls rfl (by decide))
    rw [lexemes, List.singleton_append] at hvar
    rw [hvar, Reader.operator_operator rfl, Reader.reduce_of_least_le hk]
    rfl
  have hfill : operand (.assign x :: k) (grouped (e.needsParens .assign .right) e.lexemes ++ rest) =
      operator k (.assign x e.asRead) rest := by
    have hbound : Follows Operator.assign.bound rest := hrest
    rw [hvalue _ rest le_rfl hbound, Reader.operator_fill rfl hbound]
    rfl
  rw [lexemes, assignLexemes, List.append_assoc, List.cons_append, List.cons_append, hequals]
  split
  · exact hfill
  · exact hfill

theorem reads_send (x : Name) {e : Expr} (h : Reads e.lexemes e.asRead e.rank e.bound) :
    Reads (send e x).lexemes (send e x).asRead (send e x).rank (send e x).bound := by
  intro k rest hk hrest
  have hreceiver : Reads (grouped e.operator?.isSome e.lexemes) e.asRead 100 100 := by
    cases hop : e.operator? with
    | none =>
      rw [rank, bound, hop] at h
      exact h
    | some op => exact h.parenthesized 100 100
  rw [lexemes, List.append_assoc, List.cons_append, List.singleton_append,
    hreceiver k _ hk (.dot x.text rest le_rfl)]
  change (Name.ofText? x.text).bind (fun y => operator k (.send e.asRead y) rest) = _
  rw [Name.ofText?_text]
  rfl

/-- Only an application of an operator between two operands is of the rank of an associative one. -/
theorem precedence_ne_rank {op : Operator} (hop : op.facts.associative = true) {e : Expr}
    (he : ∀ op l r, e ≠ .binary op l r) : op.precedence ≠ e.rank := by
  have hne (p : Operator) (hp : p.facts.associative = false) : op.precedence ≠ p.precedence := by
    intro heq
    rw [Operator.associative_of_precedence_eq hop heq.symm] at hp
    exact nomatch hp
  have hnone : op.precedence ≠ 100 := op.precedence_lt.ne
  cases e with
  | var x => exact hnone
  | integer n =>
    cases n with
    | ofNat n => exact hnone
    | negSucc n =>
      rw [rank, operator?_negSucc]
      exact hne .negative rfl
  | unary p e =>
    refine hne p ?_
    obtain hp | hp | hp | hp | hp := Operator.eq_of_isUnary p.2 <;> rw [hp] <;> rfl
  | binary p l r => exact absurd rfl (he p l r)
  | assign x e => exact hne .assign rfl
  | send e x => exact hnone

theorem Reads.joins_of_ne {e : Expr} (h : Reads e.lexemes e.asRead e.rank e.bound)
    (he : ∀ op l r, e ≠ .binary op l r) : Joins e.lexemes e.asRead e.rank := by
  intro op l k rest hassociative hrank _ hrest
  have hlt := hrank.lt_of_ne (precedence_ne_rank hassociative he)
  exact h.joins op l k hassociative hlt hrest

/-- **What is written for an expression is read as `Expr.asRead` says**, wherever the expression
stands. -/
theorem reads_lexemes (e : Expr) :
    Reads e.lexemes e.asRead e.rank e.bound ∧ Joins e.lexemes e.asRead e.rank := by
  induction e with
  | var x => exact ⟨reads_var x _ _, (reads_var x _ _).joins_of_ne nofun⟩
  | integer n => exact ⟨reads_integer n, (reads_integer n).joins_of_ne nofun⟩
  | unary op e ih => exact ⟨reads_unary op ih.1, (reads_unary op ih.1).joins_of_ne nofun⟩
  | binary op l r ihl ihr =>
    exact ⟨reads_binary op ihl.1 ihr.1 ihr.2, joins_binary op ihl.1 ihl.2 ihr.1 ihr.2⟩
  | assign x e ih => exact ⟨reads_assign x ih.1, (reads_assign x ih.1).joins_of_ne nofun⟩
  | send e x ih => exact ⟨reads_send x ih.1, (reads_send x ih.1).joins_of_ne nofun⟩

/-- The reader finds `Expr.asRead` in the text of an expression. -/
theorem read_text (o : Options) (e : Expr) :
    read (String.ofList ((Lexeme.text e.lexemes).spell o)) = some e.asRead := by
  have hreads := (reads_lexemes e).1 [] [] (Nat.zero_le _) .done
  rw [read, String.toList_ofList, scan_lexemes, ← List.append_nil e.lexemes, hreads]
  rfl

end Expr
end TerseRuby
