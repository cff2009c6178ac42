import TerseRuby.Proofs.Expression.Syntax

/-!
# Reading operator expressions

The reader of operator expressions knows nothing of how they are written.  It goes through the
lexemes once, from left to right, with a stack of the operators that still wait for their right
operand and of the parentheses that are still open (`Frame`).  It is in one of two positions:

* where an operand is expected (`Reader.operand`), a name, a number, an opening parenthesis or an
  operator that stands before its operand can come.  A sign directly before a number is the sign of
  the literal, except that a negated power of a literal is the negation of the power;
* after an operand (`Reader.operator`), what comes next decides which of the waiting operators are
  complete: those of higher rank, and those of equal rank if the rank groups to the left
  (`Reader.reduce`).  The call of a method binds tightest, so it never completes anything.

All lexemes have to be used, and every parenthesis closed.
-/

set_option autoImplicit false

namespace TerseRuby

/-! ## The lexemes that matter to an expression -/

namespace Lexeme

/-- The operator before an operand that a lexeme is. -/
def unary? : Lexeme → Option UnaryOperator
  | .mark (.operator .bang) => some ⟨.bang, rfl⟩
  | .mark (.operator .complement) => some ⟨.complement, rfl⟩
  | .mark (.operator .plus) => some ⟨.positive, rfl⟩
  | .mark (.operator .minus) => some ⟨.negative, rfl⟩
  | .word "not" => some .wordNot
  | _ => none

/-- The operator after an operand that a lexeme is. -/
def operator? : Lexeme → Option Operator
  | .mark (.operator op) => if op.isBinary || op == .assign then some op else none
  | .word "and" => some .wordAnd
  | .word "or" => some .wordOr
  | _ => none

/-- Whether the next lexeme that is no blank is the operator of powers. -/
def powerFollows : List Lexeme → Bool
  | .blank :: ls => powerFollows ls
  | .mark (.operator .power) :: _ => true
  | _ => false

end Lexeme

namespace Reader

/-! ## What waits -/

/-- Something that waits for its right end. -/
inductive Frame where
  /-- An open parenthesis. -/
  | group
  /-- An operator before its operand. -/
  | unary (op : UnaryOperator)
  /-- An operator between two operands, and the left one. -/
  | binary (op : BinaryOperator) (left : Expr)
  /-- An assignment to a variable. -/
  | assign (x : Name)
  deriving DecidableEq, Repr

/-- The operator that waits. -/
def Frame.operator? : Frame → Option Operator
  | .group => none
  | .unary op => some op
  | .binary op _ => some op
  | .assign _ => some .assign

/-- What waited, with its operand. -/
def Frame.fill : Frame → Expr → Expr
  | .group, e => e
  | .unary op, e => .unary op e
  | .binary op l, e => .binary op l e
  | .assign x, e => .assign x e

/-- Whether an operator that waits is complete where another one follows its operand; not if the
two do not chain. -/
def completes (waiting next : Operator) : Option Bool :=
  if next.precedence < waiting.precedence then some true
  else if waiting.precedence < next.precedence then some false
  else
    match next.facts.associativity with
    | .left => some true
    | .right => some false
    | .none => none

/-- The operators that are complete where another one follows. -/
def reduce (next : Operator) : List Frame → Expr → Option (List Frame × Expr)
  | [], e => some ([], e)
  | f :: k, e =>
    match f.operator? with
    | none => some (f :: k, e)
    | some waiting =>
      match completes waiting next with
      | some true => reduce next k (f.fill e)
      | some false => some (f :: k, e)
      | none => none

/-- The operators that are complete where a parenthesis is closed. -/
def close : List Frame → Expr → Option (List Frame × Expr)
  | [], _ => none
  | .group :: k, e => some (k, e)
  | f :: k, e => close k (f.fill e)

/-- What is left at the end. -/
def finish : List Frame → Expr → Option Expr
  | [], e => some e
  | .group :: _, _ => none
  | f :: k, e => finish k (f.fill e)

/-- What waits after an operator between two operands. -/
def Frame.ofOperator? (op : Operator) (left : Expr) : Option Frame :=
  if h : op.isBinary = true then some (.binary ⟨op, h⟩ left)
  else
    match left with
    | .var x => some (.assign x)
    | _ => none

/-! ## The reader -/

mutual

/-- Read on where an operand is expected. -/
def operand (k : List Frame) : List Lexeme → Option Expr
  | .blank :: ls => operand k ls
  | .number n :: ls => operator k (.integer n) ls
  | .mark .opening :: ls => operand (.group :: k) ls
  | .mark (.operator .minus) :: .number n :: ls =>
    if Lexeme.powerFollows ls then operator (.unary ⟨.negative, rfl⟩ :: k) (.integer n) ls
    else operator k (.integer (-n)) ls
  | .mark (.operator .plus) :: .number n :: ls => operator k (.integer n) ls
  | l :: ls =>
    match l.unary? with
    | some op => operand (.unary op :: k) ls
    | none =>
      match l with
      | .word text => (Name.ofText? text).bind fun x => operator k (.var x) ls
      | _ => none
  | [] => none

/-- Read on after an operand. -/
def operator (k : List Frame) (e : Expr) : List Lexeme → Option Expr
  | [] => finish k e
  | .blank :: ls => operator k e ls
  | .mark .closing :: ls => (close k e).bind fun p => operator p.1 p.2 ls
  | .mark .dot :: .word text :: ls => (Name.ofText? text).bind fun x => operator k (.send e x) ls
  | l :: ls => do
    let op ← l.operator?
    let (k, e) ← reduce op k e
    operand ((← Frame.ofOperator? op e) :: k) ls

end

/-! ## Ranks -/

end Reader

namespace Operator

/-- The least rank that an operand after an operator can have without parentheses. -/
def least (op : Operator) : Nat :=
  if op.facts.associativity = .right then op.precedence else op.precedence + 1

/-- The highest rank of an operator that completes another one before it. -/
def bound (op : Operator) : Nat :=
  if op.facts.associativity = .left then op.precedence else op.precedence - 1

/-- Operators of one rank group alike. -/
theorem associativity_eq {op op' : Operator} (h : op.precedence = op'.precedence) :
    op.facts.associativity = op'.facts.associativity := by
  have check : ∀ op ∈ all, ∀ op' ∈ all, op.precedence = op'.precedence →
      op.facts.associativity = op'.facts.associativity := by decide
  exact check op (mem_all op) op' (mem_all op') h

theorem precedence_pos (op : Operator) : 0 < op.precedence := by
  cases op <;> decide

theorem precedence_lt (op : Operator) : op.precedence < 100 := by
  cases op <;> decide

theorem least_le (op : Operator) : op.least ≤ op.precedence + 1 := by
  rw [least]
  split <;> omega

theorem bound_le (op : Operator) : op.bound ≤ op.precedence := by
  rw [bound]
  split <;> omega

theorem le_bound (op : Operator) : op.precedence ≤ op.bound + 1 := by
  rw [bound]
  split <;> omega

end Operator

namespace Reader

theorem completes_of_le_bound {waiting next : Operator} (h : next.precedence ≤ waiting.bound) :
    completes waiting next = some true := by
  have hpos := waiting.precedence_pos
  rw [Operator.bound] at h
  rw [completes]
  split at h
  · rename_i hleft
    split
    · rfl
    · have heq : next.precedence = waiting.precedence := by omega
      rw [if_neg (by omega), Operator.associativity_eq heq, hleft]
  · rw [if_pos (by omega)]

theorem completes_of_least_le {waiting next : Operator} (h : waiting.least ≤ next.precedence) :
    completes waiting next = some false := by
  rw [Operator.least] at h
  rw [completes]
  split at h
  · rename_i hright
    rw [if_neg (by omega)]
    split
    · rfl
    · have heq : next.precedence = waiting.precedence := by omega
      rw [Operator.associativity_eq heq, hright]
  · rw [if_neg (by omega), if_pos (by omega)]

/-- The least rank that an operand can have without parentheses after what waits. -/
def least : List Frame → Nat
  | [] => 0
  | f :: _ => f.operator?.elim 0 Operator.least

theorem reduce_of_least_le {next : Operator} {k : List Frame} (h : least k ≤ next.precedence)
    (e : Expr) : reduce next k e = some (k, e) := by
  cases k with
  | nil => rfl
  | cons f k =>
    rw [least] at h
    rw [reduce]
    cases hf : f.operator? with
    | none => rfl
    | some waiting =>
      rw [hf, Option.elim_some] at h
      simp only [completes_of_least_le h]

/-! ## What comes after an operand -/

/-- What comes after an operand completes every operator of a rank above the bound. -/
inductive Follows (bound : Nat) : List Lexeme → Prop
  | done : Follows bound []
  | blank {ls : List Lexeme} (h : Follows bound ls) : Follows bound (.blank :: ls)
  | closing (ls : List Lexeme) : Follows bound (.mark .closing :: ls)
  | dot (text : String) (ls : List Lexeme) (h : 100 ≤ bound) :
      Follows bound (.mark .dot :: .word text :: ls)
  | operator {l : Lexeme} {op : Operator} (ls : List Lexeme) (hl : l.operator? = some op)
      (h : op.precedence ≤ bound) : Follows bound (l :: ls)

theorem Follows.mono {bound bound' : Nat} {ls : List Lexeme} (h : Follows bound ls)
    (hle : bound ≤ bound') : Follows bound' ls := by
  induction h with
  | done => exact .done
  | blank _ ih => exact .blank ih
  | closing ls => exact .closing ls
  | dot text ls h => exact .dot text ls (h.trans hle)
  | operator ls hl h => exact .operator ls hl (h.trans hle)

/-- Where only operators of low rank can follow, no power does. -/
theorem Follows.not_power {bound : Nat} {ls : List Lexeme} (h : Follows bound ls)
    (hbound : bound < Operator.power.precedence) : Lexeme.powerFollows ls = false := by
  induction h with
  | done => rfl
  | blank _ ih => exact ih
  | closing ls => rfl
  | dot text ls h => rfl
  | @operator l op ls hl h =>
    rw [Lexeme.powerFollows.eq_3]
    · rintro ls ⟨⟩
      exact nomatch hl
    · rintro ls ⟨⟩
      obtain rfl : Operator.power = op := Option.some_inj.mp hl
      omega

/-- An operator after an operand. -/
theorem operator_operator {l : Lexeme} {op : Operator} (hl : l.operator? = some op)
    (k : List Frame) (e : Expr) (ls : List Lexeme) :
    operator k e (l :: ls) = (reduce op k e).bind fun p =>
      (Frame.ofOperator? op p.2).bind fun f => operand (f :: p.1) ls := by
  have hblank : l = .blank → False := by rintro rfl; exact nomatch hl
  have hclosing : l = .mark .closing → False := by rintro rfl; exact nomatch hl
  have hdot : l = .mark .dot → False := by rintro rfl; exact nomatch hl
  rw [operator.eq_5 k e l ls hblank hclosing fun _ _ hl _ => hdot hl, hl]
  rfl

/-- An operator before an operand; a sign only before one that does not begin with a number. -/
theorem operand_unary {l : Lexeme} {op : UnaryOperator} (hl : l.unary? = some op)
    {ls : List Lexeme}
    (hls : l = .mark (.operator .minus) ∨ l = .mark (.operator .plus) →
      ∀ n ms, ls ≠ .number n :: ms)
    (k : List Frame) : operand k (l :: ls) = operand (.unary op :: k) ls := by
  cases l with
  | word text => rw [operand, hl]
  | mark m =>
    rw [operand.eq_7, hl]
    · exact nofun
    · exact nofun
    · rintro ⟨⟩
      exact nomatch hl
    · exact fun n ms hm hn => hls (.inl hm) n ms hn
    · exact fun n ms hm hn => hls (.inr hm) n ms hn
    · exact nofun
  | _ => exact nomatch hl

/-- An operator that waits is complete where its operand is. -/
theorem operator_fill {f : Frame} {waiting : Operator} (hf : f.operator? = some waiting)
    {ls : List Lexeme} (h : Follows waiting.bound ls) (k : List Frame) (e : Expr) :
    operator (f :: k) e ls = operator k (f.fill e) ls := by
  have hbound := waiting.bound_le
  have hrank := waiting.precedence_lt
  induction h with
  | done => cases f <;> first | rfl | exact nomatch hf
  | blank _ ih => exact ih
  | closing ls => cases f <;> first | rfl | exact nomatch hf
  | dot text ls h => omega
  | operator ls hl h =>
    rw [operator_operator hl, operator_operator hl, reduce, hf]
    simp only [completes_of_le_bound h]

end Reader

/-- The expression that a text is. -/
def Expr.read (text : String) : Option Expr := Reader.operand [] (Lexeme.scan text.toList)

end TerseRuby
