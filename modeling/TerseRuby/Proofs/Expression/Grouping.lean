import TerseRuby.Proofs.Expression.RoundTrip
import Mathlib.Data.List.TakeWhile

/-!
# No parentheses too many

An expression of variables, numbers without a sign and operators between two operands is written
with as few parentheses as can be: where a pair of them is deleted, the text is refused by the
reader, or read as another expression.  Nothing has to be known of how the operators around the
deleted pair are regrouped, because counting is enough.

* `Expr.pairs` counts the operands that need parentheses.  The writer writes just so many pairs
  (`Expr.openings_lexemes`), and regrouping a chain of `&&` or `||` does not change their number
  (`Expr.pairs_normal`).
* Whatever the reader makes of a text, it does not get by with fewer: an expression that it returns
  has at most as many pairs as the text has opening parentheses (`Expr.pairs_le_of_read`).

So a text with one opening parenthesis less is not read as that expression.  The second point is an
invariant of the reader.  Each frame of its stack is charged with the pairs in it (`Frame.cost`), an
open parenthesis with one; an operand that was closed brings that one along, and spends it where it
is put next to an operator that it could not stand next to without parentheses.
-/

set_option autoImplicit false

namespace TerseRuby
namespace Expr

/-! ## Counting parentheses -/

/-- Whether an operator between two operands is applied last. -/
def isBinary : Expr → Bool
  | .binary _ _ _ => true
  | _ => false

/-- Whether an operand is such an application and needs parentheses in its place. -/
def isGroupedUnder (parent : Operator) (side : Side) : Expr → Bool
  | .binary op _ _ => op.1.needsParens parent side
  | _ => false

/-- The pairs of parentheses in an operand, and the pair around it if it needs one. -/
def pairsUnder (pairs : Nat) (grouped : Bool) : Nat := pairs + grouped.toNat

/-- The pairs of parentheses that operators between two operands need. -/
def pairs : Expr → Nat
  | .binary op l r =>
    pairsUnder l.pairs (l.isGroupedUnder op .left) +
      pairsUnder r.pairs (r.isGroupedUnder op .right)
  | _ => 0

theorem pairsUnder_false (n : Nat) : pairsUnder n false = n := rfl

theorem pairsUnder_le (e : Expr) (parent : Operator) (side : Side) :
    pairsUnder e.pairs (e.isGroupedUnder parent side) ≤ pairsUnder e.pairs e.isBinary := by
  cases e with
  | binary op l r => exact Nat.add_le_add_left (Bool.toNat_le _) _
  | _ => exact le_rfl

end Expr

/-! ## The reader pays for what it builds -/

namespace Reader

open TerseRuby.Expr (pairsUnder pairsUnder_le)

/-- Whether an operand needs parentheses where something waits for it. -/
def Frame.groups : Frame → Expr → Bool
  | .binary op _, e => e.isGroupedUnder op .right
  | _, _ => false

/-- What was paid for something that waits: the parenthesis that it is, or those on its left. -/
def Frame.cost : Frame → Nat
  | .group => 1
  | .binary op l => pairsUnder l.pairs (l.isGroupedUnder op .left)
  | _ => 0

/-- What was paid for all that waits. -/
def cost : List Frame → Nat
  | [] => 0
  | f :: k => f.cost + cost k

/-- Whether an operand needs parentheses on top of a stack. -/
def groups (k : List Frame) (e : Expr) : Bool := k.head?.any (·.groups e)

/-- What one of two neighbours on the stack becomes stands without parentheses in the one below. -/
def Frame.Rests (f g : Frame) : Prop := f ≠ .group → ∀ e, g.groups (f.fill e) = false

@[simp] theorem cost_nil : cost [] = 0 := rfl

@[simp] theorem cost_cons (f : Frame) (k : List Frame) : cost (f :: k) = f.cost + cost k := rfl

theorem cost_group (k : List Frame) : cost (.group :: k) = cost k + 1 := Nat.add_comm _ _

theorem cost_unary (op : UnaryOperator) (k : List Frame) : cost (.unary op :: k) = cost k :=
  Nat.zero_add _

theorem groups_le (k : List Frame) (e : Expr) :
    pairsUnder e.pairs (groups k e) ≤ pairsUnder e.pairs e.isBinary := by
  cases k with
  | nil => exact Nat.le_add_right _ _
  | cons f k =>
    cases f with
    | binary op l => exact pairsUnder_le e op .right
    | _ => exact Nat.le_add_right _ _

/-- What waited was paid for, and so was its operand. -/
theorem Frame.pairs_fill_le {f : Frame} (hf : f ≠ .group) (e : Expr) :
    (f.fill e).pairs ≤ f.cost + pairsUnder e.pairs (f.groups e) := by
  cases f with
  | group => exact absurd rfl hf
  | binary op l => exact le_rfl
  | _ => exact Nat.zero_le _

/-- Filling in an operand costs nothing more. -/
theorem fill_le {f : Frame} {k : List Frame} (hk : (f :: k).IsChain Frame.Rests)
    (hf : f ≠ .group) (e : Expr) :
    cost k + pairsUnder (f.fill e).pairs (groups k (f.fill e)) ≤
      cost (f :: k) + pairsUnder e.pairs (groups (f :: k) e) := by
  have hrests : groups k (f.fill e) = false := by
    cases k with
    | nil => rfl
    | cons g k => exact (List.isChain_cons_cons.mp hk).1 hf e
  have hfill := Frame.pairs_fill_le hf e
  have htop : groups (f :: k) e = f.groups e := rfl
  rw [hrests, htop, cost_cons, Expr.pairsUnder_false]
  omega

theorem finish_le {k : List Frame} (hk : k.IsChain Frame.Rests) {e t : Expr}
    (h : finish k e = some t) : t.pairs ≤ cost k + pairsUnder e.pairs (groups k e) := by
  induction k generalizing e with
  | nil =>
    obtain rfl := Option.some_inj.mp h
    exact (Nat.zero_add _).ge
  | cons f k ih =>
    by_cases hf : f = .group
    · subst hf
      cases h
    · have hrest : finish k (f.fill e) = some t := by
        cases f with
        | group => exact absurd rfl hf
        | _ => exact h
      exact (ih hk.tail hrest).trans (fill_le hk hf e)

/-- A pair of parentheses that is closed is left over for the operand in it. -/
theorem close_le {k k' : List Frame} (hk : k.IsChain Frame.Rests) {e e' : Expr}
    (h : close k e = some (k', e')) :
    k'.IsChain Frame.Rests ∧
      cost k' + (e'.pairs + 1) ≤ cost k + pairsUnder e.pairs (groups k e) := by
  induction k generalizing e with
  | nil => cases h
  | cons f k ih =>
    by_cases hf : f = .group
    · subst hf
      obtain ⟨rfl, rfl⟩ := Prod.mk.inj (Option.some_inj.mp h)
      have hgroup : groups (.group :: k) e = false := rfl
      refine ⟨hk.tail, ?_⟩
      rw [hgroup, cost_group, Expr.pairsUnder_false]
      omega
    · have hrest : close k (f.fill e) = some (k', e') := by
        cases f with
        | group => exact absurd rfl hf
        | _ => exact h
      obtain ⟨hchain, hle⟩ := ih hk.tail hrest
      exact ⟨hchain, hle.trans (fill_le hk hf e)⟩

/-! ## Operators that complete others -/

/-- An operator that is complete before another one stands on its left without parentheses. -/
theorem not_needsParens_of_completes {waiting next : Operator}
    (h : completes waiting next = some true) : waiting.needsParens next .left = false := by
  rw [completes] at h
  rw [Operator.needsParens]
  split at h
  · rw [if_pos (by simpa using by omega)]
    simpa using by omega
  · split at h
    · cases h
    · have heq : waiting.precedence = next.precedence := by omega
      rw [if_neg (by simpa using heq)]
      split
      · rfl
      · cases hassociativity : next.facts.associativity <;> simp_all

/-- An operator that does not complete the one before stands on its right without parentheses. -/
theorem not_needsParens_of_not_completes {waiting next : Operator}
    (h : completes waiting next = some false) : next.needsParens waiting .right = false := by
  rw [completes] at h
  rw [Operator.needsParens]
  split at h
  · cases h
  · split at h
    · rw [if_pos (by simpa using by omega)]
      simpa using by omega
    · have heq : next.precedence = waiting.precedence := by omega
      rw [if_neg (by simpa using heq)]
      split
      · rfl
      · rw [← Operator.associativity_eq heq]
        cases hassociativity : next.facts.associativity <;> simp_all

/-- What an operator completes can stand on its left. -/
theorem Frame.not_isGroupedUnder_fill {f : Frame} {waiting next : Operator}
    (hf : f.operator? = some waiting) (h : completes waiting next = some true) (e : Expr) :
    (f.fill e).isGroupedUnder next .left = false := by
  cases f with
  | group => cases hf
  | binary op l =>
    obtain rfl := Option.some_inj.mp hf
    exact not_needsParens_of_completes h
  | _ => rfl

/-- The operator can stand on the right of what waits on top. -/
def Admits (next : Operator) (k : List Frame) : Prop :=
  ∀ (hop : next.isBinary = true) (l r : Expr), groups k (.binary ⟨next, hop⟩ l r) = false

/-- What an operator completes is paid for, with the operand that is left on its left. -/
theorem reduce_le {next : Operator} {k k' : List Frame} (hk : k.IsChain Frame.Rests)
    {e e' : Expr} (h : reduce next k e = some (k', e')) {n : Nat}
    (hright : pairsUnder e.pairs (groups k e) ≤ n)
    (hleft : pairsUnder e.pairs (e.isGroupedUnder next .left) ≤ n) :
    k'.IsChain Frame.Rests ∧ Admits next k' ∧
      cost k' + pairsUnder e'.pairs (e'.isGroupedUnder next .left) ≤ cost k + n := by
  induction k generalizing e n with
  | nil =>
    cases h
    exact ⟨hk, fun _ _ _ => rfl, Nat.add_le_add_left hleft _⟩
  | cons f k ih =>
    rw [reduce] at h
    split at h
    · rename_i hf
      cases h
      refine ⟨hk, fun _ _ _ => ?_, Nat.add_le_add_left hleft _⟩
      cases f with
      | group => rfl
      | _ => cases hf
    · rename_i waiting hf
      have hne : f ≠ .group := by
        rintro rfl
        cases hf
      split at h
      · rename_i hcompletes
        have hfill := fill_le hk hne e
        have hopen := Frame.not_isGroupedUnder_fill hf hcompletes e
        obtain ⟨hchain, hadmits, hle⟩ := ih hk.tail h le_rfl
          (by rw [hopen]; exact Nat.le_add_right _ _)
        exact ⟨hchain, hadmits, by omega⟩
      · rename_i hwaits
        cases h
        refine ⟨hk, fun hop l r => ?_, Nat.add_le_add_left hleft _⟩
        cases f with
        | binary op m =>
          obtain rfl := Option.some_inj.mp hf
          exact not_needsParens_of_not_completes hwaits
        | _ => rfl
      · cases h

/-- What waits after an operator that what waits below admits. -/
theorem ofOperator?_le {op : Operator} {e : Expr} {f : Frame} {k : List Frame}
    (hk : k.IsChain Frame.Rests) (hadmits : Admits op k) (h : Frame.ofOperator? op e = some f) :
    (f :: k).IsChain Frame.Rests ∧ f.cost ≤ pairsUnder e.pairs (e.isGroupedUnder op .left) := by
  unfold Frame.ofOperator? at h
  split at h
  · rename_i hop
    obtain rfl := Option.some_inj.mp h
    refine ⟨List.isChain_cons.mpr ⟨fun g hg => ?_, hk⟩, le_rfl⟩
    intro _ r
    have hgroups := hadmits hop e r
    rw [groups, hg] at hgroups
    exact hgroups
  · split at h
    · obtain rfl := Option.some_inj.mp h
      refine ⟨List.isChain_cons.mpr ⟨fun g _ _ _ => ?_, hk⟩, Nat.zero_le _⟩
      cases g <;> rfl
    · cases h

/-! ## Whatever is read -/

/-- The opening parentheses in a row of lexemes. -/
def openings (ls : List Lexeme) : Nat := ls.count (.mark .opening)

theorem openings_le_cons (l : Lexeme) (ls : List Lexeme) : openings ls ≤ openings (l :: ls) :=
  List.count_le_count_cons

theorem openings_opening (ls : List Lexeme) : openings (.mark .opening :: ls) = openings ls + 1 :=
  List.count_cons_self

/-- An operator before its operand needs no parentheses on top of anything. -/
theorem isChain_unary {k : List Frame} (hk : k.IsChain Frame.Rests) (op : UnaryOperator) :
    (Frame.unary op :: k).IsChain Frame.Rests := by
  refine List.isChain_cons.mpr ⟨fun g _ _ _ => ?_, hk⟩
  cases g <;> rfl

theorem isChain_group {k : List Frame} (hk : k.IsChain Frame.Rests) :
    (Frame.group :: k).IsChain Frame.Rests :=
  List.isChain_cons.mpr ⟨fun _ _ hgroup => absurd rfl hgroup, hk⟩

/-- What is read after an operand was paid for. -/
def PaysAfter (ls : List Lexeme) : Prop :=
  ∀ {k : List Frame} {e t : Expr}, k.IsChain Frame.Rests → operator k e ls = some t →
    t.pairs ≤ cost k + pairsUnder e.pairs e.isBinary + openings ls

/-- What is read where an operand is expected was paid for. -/
def PaysBefore (ls : List Lexeme) : Prop :=
  ∀ {k : List Frame} {t : Expr}, k.IsChain Frame.Rests → operand k ls = some t →
    t.pairs ≤ cost k + openings ls

/-- An operand without operators between operands costs nothing. -/
theorem PaysAfter.atom {ls : List Lexeme} (h : PaysAfter ls) {k : List Frame} {e t : Expr}
    (hk : k.IsChain Frame.Rests) (he : pairsUnder e.pairs e.isBinary = 0)
    (hread : operator k e ls = some t) : t.pairs ≤ cost k + openings ls := by
  have hpays := h hk hread
  omega

/-- A lexeme where an operand is expected, given what the lexemes after it are read as. -/
theorem paysBefore_cons {l : Lexeme} {ls : List Lexeme} (hbefore : PaysBefore ls)
    (hafter : PaysAfter ls) (htail : PaysAfter ls.tail) : PaysBefore (l :: ls) := by
  intro k t hk h
  have hle := openings_le_cons l ls
  unfold operand at h
  split at h
  · cases ‹l :: ls = _›
    exact (hbefore hk h).trans (Nat.add_le_add_left hle _)
  · cases ‹l :: ls = _›
    exact (hafter.atom hk rfl h).trans (Nat.add_le_add_left hle _)
  · cases ‹l :: ls = _›
    have hpays := hbefore (isChain_group hk) h
    rw [openings_opening]
    rw [cost_group] at hpays
    omega
  · cases ‹l :: ls = _›
    rename_i n ls
    have hle' := openings_le_cons (.number n) ls
    split at h
    · have hpays := htail.atom (isChain_unary hk _) rfl h
      rw [cost_unary, List.tail_cons] at hpays
      omega
    · have hpays := htail.atom hk rfl h
      rw [List.tail_cons] at hpays
      omega
  · cases ‹l :: ls = _›
    rename_i n ls
    have hle' := openings_le_cons (.number n) ls
    have hpays := htail.atom hk rfl h
    rw [List.tail_cons] at hpays
    omega
  · cases ‹l :: ls = _›
    split at h
    · have hpays := hbefore (isChain_unary hk _) h
      rw [cost_unary] at hpays
      omega
    · split at h
      · obtain ⟨x, -, hread⟩ := Option.bind_eq_some_iff.mp h
        exact (hafter.atom hk rfl hread).trans (Nat.add_le_add_left hle _)
      · cases h
  · cases h

/-- A lexeme after an operand, given what the lexemes after it are read as. -/
theorem paysAfter_cons {l : Lexeme} {ls : List Lexeme} (hbefore : PaysBefore ls)
    (hafter : PaysAfter ls) (htail : PaysAfter ls.tail) : PaysAfter (l :: ls) := by
  intro k e t hk h
  have hle := openings_le_cons l ls
  have hgroups := groups_le k e
  unfold operator at h
  split at h
  · cases ‹l :: ls = _›
  · cases ‹l :: ls = _›
    have hpays := hafter hk h
    omega
  · cases ‹l :: ls = _›
    obtain ⟨⟨k', e'⟩, hclose, hread⟩ := Option.bind_eq_some_iff.mp h
    obtain ⟨hk', hpaid⟩ := close_le hk hclose
    have hpays := hafter hk' hread
    have hone : pairsUnder e'.pairs e'.isBinary ≤ e'.pairs + 1 :=
      Nat.add_le_add_left (Bool.toNat_le _) _
    dsimp only at hpays
    omega
  · cases ‹l :: ls = _›
    rename_i text ls
    obtain ⟨x, -, hread⟩ := Option.bind_eq_some_iff.mp h
    have hle' := openings_le_cons (.word text) ls
    have hpays := htail.atom hk rfl hread
    rw [List.tail_cons] at hpays
    omega
  · cases ‹l :: ls = _›
    obtain ⟨op, -, h⟩ := Option.bind_eq_some_iff.mp h
    obtain ⟨⟨k', e'⟩, hreduce, h⟩ := Option.bind_eq_some_iff.mp h
    obtain ⟨f, hf, hread⟩ := Option.bind_eq_some_iff.mp h
    obtain ⟨hk', hadmits, hpaid⟩ := reduce_le hk hreduce hgroups (pairsUnder_le e op .left)
    obtain ⟨hchain, hcost⟩ := ofOperator?_le hk' hadmits hf
    have hpays := hbefore hchain hread
    rw [cost_cons] at hpays
    omega

/-- The reader pays for every pair that it needs with an opening parenthesis. -/
theorem pays (ls : List Lexeme) : PaysBefore ls ∧ PaysAfter ls ∧ PaysAfter ls.tail := by
  induction ls with
  | nil =>
    have hafter : PaysAfter [] := by
      intro k e t hk h
      have hgroups := groups_le k e
      unfold operator at h
      exact (finish_le hk h).trans (Nat.add_le_add_left hgroups _)
    refine ⟨fun {k t} _ h => ?_, hafter, hafter⟩
    unfold operand at h
    cases h
  | cons l ls ih =>
    obtain ⟨hbefore, hafter, htail⟩ := ih
    exact ⟨paysBefore_cons hbefore hafter htail, paysAfter_cons hbefore hafter htail, hafter⟩

end Reader

/-! ## Parentheses in a text -/

namespace Lexeme

open Reader (openings)

theorem count_takeWhile {p : Char → Bool} (hp : p '(' = false) (text : List Char) :
    (text.takeWhile p).count '(' = 0 := by
  rw [List.count_eq_zero]
  intro hmem
  exact Bool.false_ne_true (hp.symm.trans (List.mem_takeWhile_imp hmem))

/-- Only the mark of an opening parenthesis is spelled with one. -/
theorem count_chars {m : Mark} (hm : m ∈ Mark.all) :
    m.chars.count '(' = openings [.mark m] := by
  have check : ∀ m ∈ Mark.all, m.chars.count '(' = openings [.mark m] := by decide
  exact check m hm

/-- One step of the lexer: the lexeme, and what it is made of. -/
theorem exists_scan_cons (c : Char) (rest : List Char) :
    ∃ l front back, c :: rest = front ++ back ∧ back.length ≤ rest.length ∧
      scan (c :: rest) = l :: scan back ∧ front.count '(' = openings [l] := by
  have hword (p : Char → Bool) (hp : p '(' = false) (hc : c ≠ '(') :
      c :: rest = (c :: rest.takeWhile p) ++ rest.dropWhile p ∧
      (rest.dropWhile p).length ≤ rest.length ∧ (c :: rest.takeWhile p).count '(' = 0 := by
    refine ⟨?_, (List.dropWhile_suffix p).length_le, ?_⟩
    · rw [List.cons_append, List.takeWhile_append_dropWhile]
    · rw [List.count_cons_of_ne hc, count_takeWhile hp]
  rw [scan]
  split
  · rename_i hc
    exact ⟨_, [c], rest, rfl, le_rfl, rfl, by rw [hc]; rfl⟩
  split
  · rename_i hc
    refine ⟨_, [c], rest, rfl, le_rfl, rfl, ?_⟩
    obtain rfl | rfl := hc <;> rfl
  split
  · rename_i hc
    obtain ⟨hcut, hlength, hcount⟩ := hword CharClass.isWord (by decide) (by rintro rfl; cases hc)
    exact ⟨_, _, _, hcut, hlength, rfl, hcount⟩
  split
  · rename_i hc
    obtain ⟨hcut, hlength, hcount⟩ := hword Decimal.isDigit (by decide) (by rintro rfl; cases hc)
    exact ⟨_, _, _, hcut, hlength, rfl, hcount⟩
  split
  · rename_i m hm
    have hmem := List.mem_of_find?_eq_some hm
    have hfront := List.find?_some hm
    rw [List.isPrefixOf_iff_prefix, List.prefix_iff_eq_take] at hfront
    cases hchars : m.chars with
    | nil => exact absurd hchars (Mark.chars_ne_nil hmem)
    | cons d ds =>
      have hcut : c :: rest = m.chars ++ rest.drop ds.length := by
        conv_lhs => rw [← List.take_append_drop m.chars.length (c :: rest), ← hfront]
        rw [hchars]
        rfl
      refine ⟨_, m.chars, rest.drop ds.length, hcut, by simp, rfl, count_chars hmem⟩
  · rename_i hm
    refine ⟨_, [c], rest, rfl, le_rfl, rfl, ?_⟩
    have hc : c ≠ '(' := by
      rintro rfl
      have hopening := List.find?_eq_none.mp hm .opening (by decide)
      exact hopening rfl
    rw [List.count_cons_of_ne hc]
    rfl

/-- The opening parentheses in a text are those among its lexemes. -/
theorem openings_scan (text : List Char) : openings (scan text) = text.count '(' := by
  induction hn : text.length using Nat.strong_induction_on generalizing text with
  | _ n ih =>
    cases text with
    | nil => rw [scan]; rfl
    | cons c rest =>
      obtain ⟨l, front, back, hcut, hlength, hscan, hcount⟩ := exists_scan_cons c rest
      have hback := ih back.length (by rw [← hn, List.length_cons]; omega) back rfl
      calc openings (scan (c :: rest))
          = openings [l] + openings (scan back) := by
            rw [hscan, ← List.singleton_append]
            exact List.count_append
        _ = front.count '(' + back.count '(' := by rw [hcount, hback]
        _ = (c :: rest).count '(' := by rw [hcut, List.count_append]

end Lexeme

namespace Expr

open Lexeme (grouped)

/-- Whatever is read from a text, the text has an opening parenthesis for each pair in it. -/
theorem pairs_le_of_read {text : String} {e : Expr} (h : read text = some e) :
    e.pairs ≤ text.toList.count '(' := by
  have hpays := (Reader.pays (Lexeme.scan text.toList)).1 .nil h
  rwa [Reader.cost_nil, Nat.zero_add, Lexeme.openings_scan] at hpays

/-! ## The parentheses that are written -/

/-- An expression of variables, numbers without a sign and operators that are no words, each
between two operands. -/
def isInfix : Expr → Bool
  | .var _ => true
  | .integer n => decide (0 ≤ n)
  | .binary op l r => !op.1.isWord && l.isInfix && r.isInfix
  | _ => false

theorem needsParens_eq_isGroupedUnder {e : Expr} (h : e.isInfix = true) (parent : Operator)
    (side : Side) : e.needsParens parent side = e.isGroupedUnder parent side := by
  cases e with
  | integer n =>
    rw [isInfix, decide_eq_true_eq] at h
    rw [needsParens, operator?, if_neg (Int.not_lt.mpr h)]
    rfl
  | var x => rfl
  | binary op l r => rfl
  | _ => cases h

theorem openings_append (ls ms : List Lexeme) :
    Reader.openings (ls ++ ms) = Reader.openings ls + Reader.openings ms := List.count_append

theorem openings_grouped (needed : Bool) (ls : List Lexeme) :
    Reader.openings (grouped needed ls) = pairsUnder (Reader.openings ls) needed := by
  cases needed with
  | false => rfl
  | true =>
    rw [grouped, if_pos rfl, List.cons_append, Reader.openings_opening, openings_append]
    rfl

/-- An infix expression is written with the parentheses that its operators need. -/
theorem openings_lexemes {e : Expr} (h : e.isInfix = true) :
    Reader.openings e.lexemes = e.pairs := by
  induction e with
  | var x => rfl
  | integer n =>
    rw [isInfix, decide_eq_true_eq] at h
    rw [lexemes, if_neg (Int.not_lt.mpr h)]
    rfl
  | binary op l r ihl ihr =>
    rw [isInfix, Bool.and_eq_true, Bool.and_eq_true] at h
    have hbetween : Reader.openings op.1.between = 0 := by
      have check : ∀ op ∈ Operator.all, Reader.openings op.between = 0 := by decide
      exact check op.1 (Operator.mem_all op.1)
    rw [lexemes, openings_append, openings_append, openings_grouped, openings_grouped, hbetween,
      needsParens_eq_isGroupedUnder h.1.2, needsParens_eq_isGroupedUnder h.2, ihl h.1.2, ihr h.2,
      Nat.add_zero, pairs]
  | _ => cases h

/-! ## Regrouped chains -/

theorem isGroupedUnder_self {op : BinaryOperator}
    (hop : op.1 = .conjunction ∨ op.1 = .disjunction) (l r : Expr) (side : Side) :
    (binary op l r).isGroupedUnder op side = false := by
  have hassociative : op.1.facts.associative = true := by
    obtain hop | hop := hop <;> rw [hop] <;> rfl
  exact Operator.not_needsParens_self hassociative side

/-- Next to `&&` and `||`, it does not matter on which side an operand stands. -/
theorem isGroupedUnder_side {op : Operator} (hop : op = .conjunction ∨ op = .disjunction)
    (e : Expr) : e.isGroupedUnder op .right = e.isGroupedUnder op .left := by
  have check : ∀ child ∈ Operator.all, ∀ op ∈ [Operator.conjunction, .disjunction],
      child.needsParens op .right = child.needsParens op .left := by decide
  cases e with
  | binary child l r => exact check child.1 (Operator.mem_all _) op (by simpa using hop)
  | _ => rfl

theorem exists_chain_eq (op : BinaryOperator) (l r : Expr) :
    ∃ s t, chain op l r = .binary op s t := by
  cases r with
  | binary op' r s =>
    rw [chain]
    split
    · exact ⟨_, _, rfl⟩
    · exact ⟨_, _, rfl⟩
  | _ => exact ⟨_, _, rfl⟩

theorem pairs_binary (op : BinaryOperator) (l r : Expr) :
    (binary op l r).pairs = pairsUnder l.pairs (l.isGroupedUnder op .left) +
      pairsUnder r.pairs (r.isGroupedUnder op .right) := rfl

/-- A chain has the parentheses of its operands, however it is grouped. -/
theorem pairs_chain {op : BinaryOperator} (hop : op.1 = .conjunction ∨ op.1 = .disjunction)
    (l r : Expr) : (chain op l r).pairs = (binary op l r).pairs := by
  induction r with
  | binary op' r s ihr ihs =>
    rw [chain]
    split
    · rename_i heq
      subst heq
      have hchain : (chain op' l r).isGroupedUnder op' .left = false := by
        obtain ⟨x, y, heq⟩ := exists_chain_eq op' l r
        rw [heq, isGroupedUnder_self hop]
      rw [pairs_binary, hchain, ihr, pairs_binary, pairs_binary op' l, isGroupedUnder_self hop,
        pairs_binary, pairsUnder_false, pairsUnder_false, isGroupedUnder_side hop r, Nat.add_assoc]
    · rfl
  | _ => rfl

theorem isGroupedUnder_normal (e : Expr) (parent : Operator) (side : Side) :
    e.normal.isGroupedUnder parent side = e.isGroupedUnder parent side := by
  cases e with
  | unary op e =>
    rw [normal]
    split <;> rfl
  | binary op l r =>
    rw [normal]
    split
    · obtain ⟨x, y, heq⟩ := exists_chain_eq op l.normal r.normal
      rw [heq]
      rfl
    · rfl
  | _ => rfl

/-- The same parentheses are needed after the chains are regrouped. -/
theorem pairs_normal (e : Expr) : e.normal.pairs = e.pairs := by
  induction e with
  | unary op e ih =>
    rw [normal]
    split <;> rfl
  | binary op l r ihl ihr =>
    have hoperands : (binary op l.normal r.normal).pairs = (binary op l r).pairs := by
      rw [pairs_binary, pairs_binary, ihl, ihr, isGroupedUnder_normal, isGroupedUnder_normal]
    rw [normal]
    split
    · rename_i hop
      rw [pairs_chain hop, hoperands]
    · exact hoperands
  | _ => rfl

theorem isSymbolic_of_isInfix {e : Expr} (h : e.isInfix = true) : e.isSymbolic = true := by
  induction e with
  | binary op l r ihl ihr =>
    rw [isInfix, Bool.and_eq_true, Bool.and_eq_true] at h
    rw [isSymbolic, h.1.1, ihl h.1.2, ihr h.2]
    rfl
  | var x => rfl
  | integer n => rfl
  | _ => cases h

/-! ## No pair can go -/

/-- **No parentheses are written that could be left out**: the text of an infix expression is read
as the expression, and where an opening and a closing parenthesis are deleted from it, what is left
is read as another expression or not at all.  There is a text if no literal has more digits than can
be written. -/
theorem read_of_deleted_ne {e : Expr} {v : Value} (h : IsTree e v) (hsymbols : e.isInfix = true)
    (o : Options) :
    (e.hasLong = false → ∃ text, render o v = .ok text) ∧
      ∀ text, render o v = .ok text → read text = some e.normal ∧
        ∀ front inner back, text.toList = front ++ '(' :: inner ++ ')' :: back →
          ∀ e', read (String.ofList (front ++ inner ++ back)) = some e' →
            e'.normal ≠ e.normal := by
  refine ⟨fun hshort => ⟨_, h.render_eq hshort o⟩, fun text hrender => ?_⟩
  rw [h.eq_of_render hrender]
  refine ⟨by rw [read_text, asRead_eq_normal (isSymbolic_of_isInfix hsymbols)], ?_⟩
  intro front inner back htext e' hread hnormal
  have hwritten : (front ++ '(' :: inner ++ ')' :: back).count '(' = e.pairs := by
    rw [← htext, String.toList_ofList, ← Lexeme.openings_scan, scan_lexemes,
      openings_lexemes hsymbols]
  have hpaid : e'.pairs ≤ (front ++ inner ++ back).count '(' := by
    have hle := pairs_le_of_read hread
    rwa [String.toList_ofList] at hle
  have hsame : e'.pairs = e.pairs := by rw [← pairs_normal e', hnormal, pairs_normal]
  have hone : (front ++ '(' :: inner ++ ')' :: back).count '(' =
      (front ++ inner ++ back).count '(' + 1 := by
    simp only [List.count_append, List.count_cons_self,
      List.count_cons_of_ne (show ')' ≠ '(' by decide)]
    omega
  omega

/-- The product `(a+1)*(a..2)` has two pairs of parentheses, and both are needed. -/
theorem read_of_deleted_ne_product :
    (binary ⟨.times, rfl⟩ (binary ⟨.plus, rfl⟩ (var .a) (integer 1))
      (binary ⟨.inclusiveRange, rfl⟩ (var .a) (integer 2))).isInfix = true ∧
    (binary ⟨.times, rfl⟩ (binary ⟨.plus, rfl⟩ (var .a) (integer 1))
      (binary ⟨.inclusiveRange, rfl⟩ (var .a) (integer 2))).pairs = 2 ∧
    ∃ text, render .default (binary ⟨.times, rfl⟩ (binary ⟨.plus, rfl⟩ (var .a) (integer 1))
        (binary ⟨.inclusiveRange, rfl⟩ (var .a) (integer 2))).tree = .ok text ∧
      read text = some (binary ⟨.times, rfl⟩ (binary ⟨.plus, rfl⟩ (var .a) (integer 1))
        (binary ⟨.inclusiveRange, rfl⟩ (var .a) (integer 2))) ∧
      ∀ front inner back, text.toList = front ++ '(' :: inner ++ ')' :: back →
        ∀ e', read (String.ofList (front ++ inner ++ back)) = some e' →
          e'.normal ≠ binary ⟨.times, rfl⟩ (binary ⟨.plus, rfl⟩ (var .a) (integer 1))
            (binary ⟨.inclusiveRange, rfl⟩ (var .a) (integer 2)) := by
  obtain ⟨hrenders, hreads⟩ := read_of_deleted_ne (isTree_tree (binary ⟨.times, rfl⟩
    (binary ⟨.plus, rfl⟩ (var .a) (integer 1))
    (binary ⟨.inclusiveRange, rfl⟩ (var .a) (integer 2)))) rfl .default
  obtain ⟨text, hrender⟩ := hrenders rfl
  exact ⟨rfl, rfl, text, hrender, hreads text hrender⟩

end Expr
end TerseRuby
