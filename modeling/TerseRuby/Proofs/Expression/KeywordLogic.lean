import TerseRuby.Proofs.Expression.RoundTrip

/-!
# Conjunction and disjunction as words

The words `and` and `or` have one rank and group to the left.  The table of operators calls both
associative, so an operand on the right of the same word is written without parentheses.  That is
right as long as the operand is a chain of this word alone.  But the operand may begin with the
other word, whose parentheses on the left are not needed and are not written either, and then the
parentheses that are left out did group: `a and ((b or c) and d)` is written `a and b or c and d`,
which is read as `((a and b) or c) and d`.

`Logic.IsSafe` says where this does not happen, and `Logic.read_render_iff` that it is exactly
there that the value of an expression survives: a safe expression has the same value as what is
read, whatever the variables are; and an expression whose variables are all different has the same
value only if it is safe.

The second half needs assignments under which the difference shows.  They are put together from
assignments for the operands, which share no variable (`Logic.Pliable`): every expression can be
given either value, both as it is and as it is read, and an operand on the right of a word can be
made to let the value before it through, or to replace it by a constant.
-/

set_option autoImplicit false

namespace TerseRuby

/-! ## Expressions of words -/

/-- One of the two words. -/
inductive Connective where
  /-- The word `and`. -/
  | conj
  /-- The word `or`. -/
  | disj
  deriving DecidableEq, Repr

namespace Connective

/-- The operator that the word is. -/
def operator : Connective → BinaryOperator
  | .conj => ⟨.wordAnd, rfl⟩
  | .disj => ⟨.wordOr, rfl⟩

/-- The value of the word between two values; the second is not looked at if the first decides. -/
def apply : Connective → Bool → Bool → Bool
  | .conj, x, y => if x then y else false
  | .disj, x, y => if x then true else y

/-- The value that changes nothing. -/
def neutral : Connective → Bool
  | .conj => true
  | .disj => false

@[simp] theorem apply_neutral (c : Connective) (x : Bool) : c.apply x c.neutral = x := by
  cases c <;> cases x <;> rfl

@[simp] theorem neutral_apply (c : Connective) (x : Bool) : c.apply c.neutral x = x := by
  cases c <;> cases x <;> rfl

@[simp] theorem apply_not_neutral (c : Connective) (x : Bool) :
    c.apply x (!c.neutral) = !c.neutral := by
  cases c <;> cases x <;> rfl

@[simp] theorem not_neutral_apply (c : Connective) (x : Bool) :
    c.apply (!c.neutral) x = !c.neutral := by
  cases c <;> cases x <;> rfl

theorem apply_assoc (c : Connective) (x y z : Bool) :
    c.apply (c.apply x y) z = c.apply x (c.apply y z) := by
  cases c <;> cases x <;> rfl

/-- What changes nothing for one word decides for the other. -/
theorem neutral_of_ne {c d : Connective} (h : d ≠ c) : c.neutral = !d.neutral := by
  cases c <;> cases d <;> first | rfl | exact absurd rfl h

end Connective

/-- An expression of variables, negations and the two words. -/
inductive Logic where
  /-- A variable. -/
  | atom (x : Name)
  /-- A negation. -/
  | not (e : Logic)
  /-- A word between two operands. -/
  | join (c : Connective) (l r : Logic)
  deriving DecidableEq, Repr

namespace Logic

/-- The operator expression. -/
def toExpr : Logic → Expr
  | .atom x => .var x
  | .not e => .unary .wordNot e.toExpr
  | .join c l r => .binary c.operator l.toExpr r.toExpr

/-- The value of an expression, given those of the variables. -/
def eval (σ : Name → Bool) : Logic → Bool
  | .atom x => σ x
  | .not e => !e.eval σ
  | .join c l r => c.apply (l.eval σ) (r.eval σ)

/-- The variables of an expression, as often as they occur. -/
def names : Logic → List Name
  | .atom x => [x]
  | .not e => e.names
  | .join _ l r => l.names ++ r.names

/-! ## What is read -/

/-- Whether an operand on the right of a word continues a chain of that word. -/
def isChained (c : Connective) : Logic → Bool
  | .join d _ _ => d == c
  | _ => false

/-- An operand on the right of a word, without any parentheses: the word takes its leftmost
part. -/
def attach (c : Connective) (l : Logic) : Logic → Logic
  | .join d r s => .join d (attach c l r) s
  | r => .join c l r

/-- What is read where an expression was written. -/
def asRead : Logic → Logic
  | .atom x => .atom x
  | .not e => .not e.asRead
  | .join c l r =>
    if r.isChained c then attach c l.asRead r.asRead else .join c l.asRead r.asRead

/-- The words of the row that an expression is read as, from left to right. -/
def spine : Logic → List Connective
  | .join c l r => l.spine ++ c :: if r.isChained c then r.spine else []
  | _ => []

/-- Wherever parentheses on the right are left out, the operand is a chain of one word. -/
def IsSafe : Logic → Prop
  | .atom _ => True
  | .not e => e.IsSafe
  | .join c l r => l.IsSafe ∧ r.IsSafe ∧ (r.isChained c = true → ∀ d ∈ r.spine, d = c)

theorem precedence_operator (c : Connective) : c.operator.1.precedence = 1 := by
  cases c <;> rfl

/-- There are no literals. -/
theorem hasLong_toExpr (e : Logic) : e.toExpr.hasLong = false := by
  induction e with
  | atom x => rfl
  | not e ih => exact ih
  | join c l r ihl ihr => exact Expr.hasLong_binary.mpr ⟨ihl, ihr⟩

theorem toExpr_attach (c : Connective) (l r : Logic) :
    (attach c l r).toExpr = Expr.attach c.operator l.toExpr r.toExpr := by
  induction r with
  | atom x => rfl
  | not e ih => rfl
  | join d r s ihr ihs =>
    rw [attach, toExpr, toExpr, Expr.attach_binary, ihr]
    rw [precedence_operator, precedence_operator]

theorem isChained_toExpr (c : Connective) (r : Logic) :
    r.toExpr.isChained c.operator = r.isChained c := by
  cases r with
  | atom x => rfl
  | not e => cases c <;> rfl
  | join d r s => cases c <;> cases d <;> rfl

/-- What is read is again an expression of words. -/
theorem asRead_toExpr (e : Logic) : e.toExpr.asRead = e.asRead.toExpr := by
  induction e with
  | atom x => rfl
  | not e ih =>
    rw [toExpr, Expr.asRead, ih]
    cases e <;> rfl
  | join c l r ihl ihr =>
    rw [toExpr, Expr.asRead, isChained_toExpr, ihl, ihr, asRead]
    split
    · rw [toExpr_attach]
    · rfl

/-! ## The value of what is read -/

variable {σ τ : Name → Bool}

/-- The value of an operand on the right of a word after the given value, if the word takes its
leftmost part. -/
def through (σ : Name → Bool) (c : Connective) (x : Bool) : Logic → Bool
  | .join d r s => d.apply (through σ c x r) (s.eval σ)
  | r => c.apply x (r.eval σ)

theorem eval_attach (c : Connective) (l r : Logic) :
    (attach c l r).eval σ = through σ c (l.eval σ) r := by
  induction r with
  | join d r s ihr ihs => rw [attach, eval, through, ihr]
  | _ => rfl

theorem through_attach (c d : Connective) (x : Bool) (l r : Logic) :
    through σ c x (attach d l r) = through σ d (through σ c x l) r := by
  induction r with
  | join c' r s ihr ihs => rw [attach, through, through, ihr]
  | _ => rfl

/-- The value after an operand on the right of a word, as it is read. -/
def step (σ : Name → Bool) (c : Connective) (x : Bool) (r : Logic) : Bool :=
  if r.isChained c then through σ c x r.asRead else c.apply x (r.asRead.eval σ)

theorem eval_asRead_join (c : Connective) (l r : Logic) :
    (join c l r).asRead.eval σ = step σ c (l.asRead.eval σ) r := by
  rw [asRead, step]
  split
  · exact eval_attach c l.asRead r.asRead
  · rfl

theorem through_asRead_join (c d : Connective) (x : Bool) (l r : Logic) :
    through σ c x (join d l r).asRead = step σ d (through σ c x l.asRead) r := by
  rw [asRead, step]
  split
  · exact through_attach c d x l.asRead r.asRead
  · rfl

/-- After the neutral value, a word changes nothing. -/
theorem through_neutral (c : Connective) (r : Logic) : through σ c c.neutral r = r.eval σ := by
  induction r with
  | join d r s ihr ihs => rw [through, eval, ihr]
  | atom x => exact c.neutral_apply _
  | not e ih => exact c.neutral_apply _

theorem step_neutral (c : Connective) (r : Logic) :
    step σ c c.neutral r = r.asRead.eval σ := by
  rw [step]
  split
  · exact through_neutral c r.asRead
  · exact c.neutral_apply _

/-! ## Safe expressions keep their value -/

/-- A chain of one word may be regrouped. -/
theorem through_of_spine {c : Connective} {r : Logic} (h : ∀ d ∈ r.spine, d = c) (x : Bool) :
    through σ c x r.asRead = c.apply x (r.asRead.eval σ) := by
  induction r generalizing x with
  | atom y => rfl
  | not e ih => rfl
  | join d l r ihl ihr =>
    rw [spine, List.forall_mem_append, List.forall_mem_cons] at h
    obtain ⟨hl, rfl, hr⟩ := h
    rw [through_asRead_join, eval_asRead_join, ihl hl, step, step]
    split
    · rename_i hchain
      rw [if_pos hchain] at hr
      rw [ihr hr, ihr hr, Connective.apply_assoc]
    · exact d.apply_assoc x (l.asRead.eval σ) (r.asRead.eval σ)

theorem eval_asRead_of_isSafe {e : Logic} (h : e.IsSafe) : e.asRead.eval σ = e.eval σ := by
  induction e with
  | atom x => rfl
  | not e ih => rw [asRead, eval, eval, ih h]
  | join c l r ihl ihr =>
    obtain ⟨hl, hr, hchain⟩ := h
    rw [eval_asRead_join, eval, step, ihl hl]
    split
    · rename_i hc
      rw [through_of_spine (hchain hc), ihr hr]
    · rw [ihr hr]

/-! ## Assignments for different variables -/

theorem names_attach (c : Connective) (l r : Logic) :
    (attach c l r).names = l.names ++ r.names := by
  induction r with
  | join d r s ihr ihs => rw [attach, names, names, ihr, List.append_assoc]
  | _ => rfl

theorem names_asRead (e : Logic) : e.asRead.names = e.names := by
  induction e with
  | atom x => rfl
  | not e ih => exact ih
  | join c l r ihl ihr =>
    rw [asRead]
    split
    · rw [names_attach, ihl, ihr, names]
    · rw [names, ihl, ihr, names]

/-- Two assignments agree on the variables of an expression. -/
def Agrees (σ τ : Name → Bool) (e : Logic) : Prop := ∀ x ∈ e.names, σ x = τ x

theorem Agrees.eval {e : Logic} (h : Agrees σ τ e) : e.eval σ = e.eval τ := by
  induction e with
  | atom x => exact h x (List.mem_singleton.mpr rfl)
  | not e ih => rw [Logic.eval, Logic.eval, ih h]
  | join c l r ihl ihr =>
    obtain ⟨hl, hr⟩ := List.forall_mem_append.mp h
    rw [Logic.eval, Logic.eval, ihl hl, ihr hr]

theorem Agrees.through {e : Logic} (h : Agrees σ τ e) (c : Connective) (x : Bool) :
    e.through σ c x = e.through τ c x := by
  induction e with
  | atom y => exact congrArg (c.apply x) h.eval
  | not e ih => exact congrArg (c.apply x) h.eval
  | join d l r ihl ihr =>
    obtain ⟨hl, hr⟩ := List.forall_mem_append.mp h
    rw [Logic.through, Logic.through, ihl hl, Agrees.eval hr]

theorem Agrees.asRead {e : Logic} (h : Agrees σ τ e) : Agrees σ τ e.asRead := by
  intro x hx
  rw [names_asRead] at hx
  exact h x hx

theorem Agrees.step {e : Logic} (h : Agrees σ τ e) (c : Connective) (x : Bool) :
    e.step σ c x = e.step τ c x := by
  rw [Logic.step, Logic.step, h.asRead.through, h.asRead.eval]

/-- Assignments for operands that share no variable are parts of one. -/
theorem exists_agrees {c : Connective} {l r : Logic} (h : (join c l r).names.Nodup)
    (σ τ : Name → Bool) : ∃ ρ, Agrees ρ σ l ∧ Agrees ρ τ r := by
  have hdisjoint := (List.nodup_append.mp h).2.2
  refine ⟨fun x => if x ∈ l.names then σ x else τ x, fun x hx => if_pos hx, fun x hx => if_neg ?_⟩
  exact fun hl => hdisjoint x hl x hx rfl

/-- An expression whose value can be chosen, both as it is and as it is read, and which on the
right of a word can let the value before it through or replace it. -/
structure Pliable (e : Logic) : Prop where
  /-- Either value can be had. -/
  value : ∀ b, ∃ σ, e.eval σ = b ∧ e.asRead.eval σ = b
  /-- The value before it can be let through. -/
  transparent : ∀ c : Connective, ∃ σ, e.eval σ = c.neutral ∧ ∀ x, through σ c x e.asRead = x
  /-- The value before it can be replaced. -/
  constant : ∀ c : Connective, ∃ σ, ∀ x, through σ c x e.asRead = !c.neutral

namespace Pliable

theorem step_transparent {e : Logic} (h : Pliable e) (c : Connective) :
    ∃ σ, e.eval σ = c.neutral ∧ ∀ x, step σ c x e = x := by
  cases hchain : e.isChained c with
  | true =>
    obtain ⟨σ, heval, hthrough⟩ := h.transparent c
    exact ⟨σ, heval, fun x => by rw [step, if_pos hchain, hthrough]⟩
  | false =>
    obtain ⟨σ, heval, hread⟩ := h.value c.neutral
    exact ⟨σ, heval, fun x => by rw [step, hchain, hread]; exact c.apply_neutral x⟩

theorem step_constant {e : Logic} (h : Pliable e) (c : Connective) :
    ∃ σ, ∀ x, step σ c x e = !c.neutral := by
  cases hchain : e.isChained c with
  | true =>
    obtain ⟨σ, hthrough⟩ := h.constant c
    exact ⟨σ, fun x => by rw [step, if_pos hchain, hthrough]⟩
  | false =>
    obtain ⟨σ, -, hread⟩ := h.value (!c.neutral)
    exact ⟨σ, fun x => by rw [step, hchain, hread]; exact c.apply_not_neutral x⟩

/-- What is no row of operands is taken whole by a word before it. -/
theorem of_value {e : Logic} (hvalue : ∀ b, ∃ σ, e.eval σ = b ∧ e.asRead.eval σ = b)
    (hwhole : ∀ σ c x, through σ c x e.asRead = c.apply x (e.asRead.eval σ)) : Pliable e where
  value := hvalue
  transparent c := by
    obtain ⟨σ, heval, hread⟩ := hvalue c.neutral
    exact ⟨σ, heval, fun x => by rw [hwhole, hread, c.apply_neutral]⟩
  constant c := by
    obtain ⟨σ, -, hread⟩ := hvalue (!c.neutral)
    exact ⟨σ, fun x => by rw [hwhole, hread, c.apply_not_neutral]⟩

theorem join {d : Connective} {l r : Logic} (hnames : (join d l r).names.Nodup) (hl : Pliable l)
    (hr : Pliable r) : Pliable (join d l r) where
  value b := by
    obtain ⟨σ, heval, hread⟩ := hl.value b
    obtain ⟨τ, hneutral, hstep⟩ := hr.step_transparent d
    obtain ⟨ρ, hρl, hρr⟩ := exists_agrees hnames σ τ
    refine ⟨ρ, ?_, ?_⟩
    · rw [eval, hρl.eval, hρr.eval, heval, hneutral, d.apply_neutral]
    · rw [eval_asRead_join, hρr.step, hstep, hρl.asRead.eval, hread]
  transparent c := by
    obtain ⟨σ, heval, hthrough⟩ := hl.transparent c
    obtain ⟨τ, hneutral, hstep⟩ := hr.step_transparent d
    obtain ⟨ρ, hρl, hρr⟩ := exists_agrees hnames σ τ
    refine ⟨ρ, ?_, fun x => ?_⟩
    · rw [eval, hρl.eval, hρr.eval, heval, hneutral, d.apply_neutral]
    · rw [through_asRead_join, hρr.step, hstep, hρl.asRead.through, hthrough]
  constant c := by
    obtain ⟨σ, hthrough⟩ := hl.constant c
    obtain ⟨τ, -, hstep⟩ := hr.step_transparent d
    obtain ⟨ρ, hρl, hρr⟩ := exists_agrees hnames σ τ
    exact ⟨ρ, fun x => by
      rw [through_asRead_join, hρr.step, hstep, hρl.asRead.through, hthrough]⟩

end Pliable

theorem pliable {e : Logic} (h : e.names.Nodup) : Pliable e := by
  induction e with
  | atom x => exact .of_value (fun b => ⟨fun _ => b, rfl, rfl⟩) fun _ _ _ => rfl
  | not e ih =>
    refine .of_value (fun b => ?_) fun _ _ _ => rfl
    obtain ⟨σ, heval, hread⟩ := (ih h).value (!b)
    exact ⟨σ, by rw [eval, heval, Bool.not_not], by rw [asRead, eval, hread, Bool.not_not]⟩
  | join c l r ihl ihr =>
    obtain ⟨hl, hr, -⟩ := List.nodup_append.mp h
    exact .join h (ihl hl) (ihr hr)

/-! ## Unsafe expressions do not -/

/-- After the value that decides, the other word in a row brings back the value that does not. -/
theorem exists_through_eq {c d : Connective} {r : Logic} (hnames : r.names.Nodup)
    (hmem : d ∈ r.spine) (hd : d ≠ c) : ∃ σ, ∀ x, through σ c x r.asRead = c.neutral := by
  induction r with
  | atom y => exact nomatch hmem
  | not e ih => exact nomatch hmem
  | join c' l r ihl ihr =>
    obtain ⟨hl, hr, -⟩ := List.nodup_append.mp hnames
    by_cases hc : c' = c
    · subst hc
      rw [spine, List.mem_append, List.mem_cons] at hmem
      obtain hmem | rfl | hmem := hmem
      · obtain ⟨σ, hσ⟩ := ihl hl hmem
        obtain ⟨τ, -, hτ⟩ := (pliable hr).step_transparent c'
        obtain ⟨ρ, hρl, hρr⟩ := exists_agrees hnames σ τ
        exact ⟨ρ, fun x => by
          rw [through_asRead_join, hρr.step, hτ, hρl.asRead.through, hσ]⟩
      · exact absurd rfl hd
      · split at hmem
        · rename_i hchain
          obtain ⟨τ, hτ⟩ := ihr hr hmem
          exact ⟨τ, fun x => by rw [through_asRead_join, step, if_pos hchain, hτ]⟩
        · exact nomatch hmem
    · obtain ⟨τ, hτ⟩ := (pliable hr).step_constant c'
      exact ⟨τ, fun x => by
        rw [through_asRead_join, hτ, Connective.neutral_of_ne hc]⟩

/-- An unsafe expression of different variables is read as one of another value. -/
theorem exists_eval_asRead_ne {e : Logic} (hnames : e.names.Nodup) (h : ¬e.IsSafe) :
    ∃ σ, e.asRead.eval σ ≠ e.eval σ := by
  induction e with
  | atom x => exact absurd trivial h
  | not e ih =>
    obtain ⟨σ, hσ⟩ := ih hnames h
    exact ⟨σ, fun heq => hσ (Bool.not_inj heq)⟩
  | join c l r ihl ihr =>
    obtain ⟨hl, hr, -⟩ := List.nodup_append.mp hnames
    by_cases hlsafe : l.IsSafe
    · by_cases hrsafe : r.IsSafe
      · -- the parentheses on the right are the ones that grouped: let the left operand decide
        have hspine : ¬(r.isChained c = true → ∀ d ∈ r.spine, d = c) :=
          fun hspine => h ⟨hlsafe, hrsafe, hspine⟩
        push Not at hspine
        obtain ⟨hchain, d, hmem, hd⟩ := hspine
        obtain ⟨σ, heval, hread⟩ := (pliable hl).value (!c.neutral)
        obtain ⟨τ, hτ⟩ := exists_through_eq hr hmem hd
        obtain ⟨ρ, hρl, hρr⟩ := exists_agrees hnames σ τ
        refine ⟨ρ, ?_⟩
        rw [eval_asRead_join, hρr.step, step, if_pos hchain, hτ, eval, hρl.eval, heval,
          c.not_neutral_apply]
        cases c.neutral <;> decide
      · obtain ⟨σ, heval, hread⟩ := (pliable hl).value c.neutral
        obtain ⟨τ, hτ⟩ := ihr hr hrsafe
        obtain ⟨ρ, hρl, hρr⟩ := exists_agrees hnames σ τ
        refine ⟨ρ, ?_⟩
        rw [eval_asRead_join, hρl.asRead.eval, hread, step_neutral, hρr.asRead.eval, eval,
          hρl.eval, heval, c.neutral_apply, hρr.eval]
        exact hτ
    · obtain ⟨σ, hσ⟩ := ihl hl hlsafe
      obtain ⟨τ, hneutral, hτ⟩ := (pliable hr).step_transparent c
      obtain ⟨ρ, hρl, hρr⟩ := exists_agrees hnames σ τ
      refine ⟨ρ, ?_⟩
      rw [eval_asRead_join, hρr.step, hτ, hρl.asRead.eval, eval, hρr.eval, hneutral,
        c.apply_neutral, hρl.eval]
      exact hσ

/-! ## The words as they are rendered -/

/-- **The value of an expression of words survives exactly where it is safe.**  Rendering any tree
of the expression gives a text that is read as another expression of words.  If the expression is
safe, the two have the same value under all assignments; and if its variables are all different,
they do only then. -/
theorem read_render_iff (e : Logic) {v : Value} (h : Expr.IsTree e.toExpr v) (o : Options) :
    ∃ (text : String) (f : Logic), render o v = .ok text ∧ Expr.read text = some f.toExpr ∧
      (e.IsSafe → ∀ σ, f.eval σ = e.eval σ) ∧
      (e.names.Nodup → (∀ σ, f.eval σ = e.eval σ) → e.IsSafe) := by
  refine ⟨_, e.asRead, h.render_eq e.hasLong_toExpr o, ?_,
    fun hsafe σ => eval_asRead_of_isSafe hsafe, ?_⟩
  · rw [Expr.read_text, asRead_toExpr]
  · intro hnames heq
    by_contra hsafe
    obtain ⟨σ, hσ⟩ := exists_eval_asRead_ne hnames hsafe
    exact hσ (heq σ)

/-- A chain of one word keeps its value. -/
theorem read_render_same_word :
    (join .conj (atom .a) (join .conj (atom .a) (atom .a))).IsSafe ∧
    ∃ (text : String) (f : Logic),
      render .default (join .conj (atom .a) (join .conj (atom .a) (atom .a))).toExpr.tree =
        .ok text ∧ Expr.read text = some f.toExpr ∧
      ∀ σ, f.eval σ = (join .conj (atom .a) (join .conj (atom .a) (atom .a))).eval σ := by
  have hsafe : (join .conj (atom .a) (join .conj (atom .a) (atom .a))).IsSafe := by
    simp [IsSafe, spine, isChained]
  obtain ⟨text, f, hrender, hread, hvalue, -⟩ :=
    read_render_iff (join .conj (atom .a) (join .conj (atom .a) (atom .a)))
      (Expr.isTree_tree _) .default
  exact ⟨hsafe, text, f, hrender, hread, hvalue hsafe⟩

/-- The expression `a and ((b or c) and d)`. -/
def mixed : Logic :=
  join .conj (atom .a) (join .conj
    (join .disj (atom ⟨"b", by decide, by decide⟩) (atom ⟨"c", by decide, by decide⟩))
    (atom ⟨"d", by decide, by decide⟩))

/-- Two words in one row do not: where `c` and `d` hold and nothing else, the expression is false
and what is read is true. -/
theorem read_render_mixed :
    ∃ (f : Logic) (σ : Name → Bool), render .default mixed.toExpr.tree = .ok "a and b or c and d" ∧
      Expr.read "a and b or c and d" = some f.toExpr ∧ f.eval σ = true ∧ mixed.eval σ = false := by
  have htext : String.ofList ((Lexeme.text mixed.toExpr.lexemes).spell .default) =
      "a and b or c and d" := by decide
  have hread := Expr.read_text .default mixed.toExpr
  rw [htext, asRead_toExpr] at hread
  refine ⟨mixed.asRead, fun x => x.text == "c" || x.text == "d", ?_, hread, ?_, ?_⟩
  · rw [← htext]
    exact (Expr.isTree_tree _).render_eq mixed.hasLong_toExpr .default
  · decide
  · decide

end Logic
end TerseRuby
