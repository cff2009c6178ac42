import TerseRuby.Proofs.Expression.AsRead

/-!
# Expressions read back as themselves

For expressions in which conjunction and disjunction are written as operators and not as words,
what is read differs from what was written in two ways only, and `Expr.normal` is these two: a
chain of `&&`, or of `||`, is regrouped to the left, and a sign before a literal without one
becomes the sign of the literal.  Both keep the value of the expression.
-/

set_option autoImplicit false

namespace TerseRuby
namespace Expr

/-! ## The two changes -/

/-- Two operands of an operator, the right one of which may be a chain of the same operator: the
chain grows at its left end. -/
def chain (op : BinaryOperator) (l : Expr) : Expr → Expr
  | .binary op' r s =>
    if op' = op then .binary op (chain op l r) s else .binary op l (.binary op' r s)
  | r => .binary op l r

/-- An expression with its chains of `&&` and of `||` regrouped to the left, and with the signs
before literals that have none made part of them. -/
def normal : Expr → Expr
  | .var x => .var x
  | .integer n => .integer n
  | .unary op e =>
    match e.signed? op with
    | some n => .integer n
    | none => .unary op e.normal
  | .binary op l r =>
    if op.1 = .conjunction ∨ op.1 = .disjunction then chain op l.normal r.normal
    else .binary op l.normal r.normal
  | .assign x e => .assign x e.normal
  | .send e x => .send e.normal x

/-- Whether no conjunction or disjunction in an expression is written as a word. -/
def isSymbolic : Expr → Bool
  | .var _ => true
  | .integer _ => true
  | .unary _ e => e.isSymbolic
  | .binary op l r => !op.1.isWord && l.isSymbolic && r.isSymbolic
  | .assign _ e => e.isSymbolic
  | .send e _ => e.isSymbolic

/-- The ranks of `&&` and `||` are theirs alone. -/
theorem eq_of_precedence_eq {op op' : Operator} (hop : op = .conjunction ∨ op = .disjunction)
    (h : op'.precedence = op.precedence) : op' = op := by
  have check : ∀ op' ∈ Operator.all, ∀ op ∈ [Operator.conjunction, .disjunction],
      op'.precedence = op.precedence → op' = op := by decide
  exact check op' (Operator.mem_all op') op (by simpa using hop) h

/-- On the right of `&&` and `||`, what is attached is a chain. -/
theorem attach_eq_chain {op : BinaryOperator} (hop : op.1 = .conjunction ∨ op.1 = .disjunction)
    (l r : Expr) : attach op l r = chain op l r := by
  induction r with
  | binary op' r s ihr ihs =>
    have hiff : op'.1.precedence = op.1.precedence ↔ op' = op :=
      ⟨fun h => Subtype.ext (eq_of_precedence_eq hop h), fun h => h ▸ rfl⟩
    rw [attach, chain, ihr]
    simp only [hiff]
    split
    · rename_i heq
      rw [heq]
    · rfl
  | _ => rfl

theorem join_eq_chain {op : BinaryOperator} (hop : op.1 = .conjunction ∨ op.1 = .disjunction)
    (l r : Expr) : join op l r = chain op l r.asRead := by
  rw [← attach_eq_chain hop, join]
  split
  · rfl
  · rename_i hchain
    have hassociative : op.1.facts.associative = true := by
      obtain hop | hop := hop <;> rw [hop] <;> rfl
    rw [attach_asRead]
    intro hrank
    refine hchain (isChained_iff.mpr ⟨?_, hassociative⟩)
    rw [rank] at hrank
    cases hr : r.operator? with
    | none =>
      rw [hr] at hrank
      exact absurd hrank.symm op.1.precedence_lt.ne
    | some child =>
      rw [hr] at hrank
      rw [eq_of_precedence_eq hop hrank]

/-- Operators that are no words chain only if they are `&&` or `||`. -/
theorem join_eq_binary {op : BinaryOperator} (hword : op.1.isWord = false)
    (hop : ¬(op.1 = .conjunction ∨ op.1 = .disjunction)) (l r : Expr) :
    join op l r = .binary op l r.asRead := by
  have check : ∀ op ∈ Operator.all, op.isWord = false → op.facts.associative = true →
      op = .conjunction ∨ op = .disjunction := by decide
  rw [join, if_neg]
  intro hchain
  exact hop (check op.1 (Operator.mem_all op.1) hword (isChained_iff.mp hchain).2)

theorem asRead_eq_normal {e : Expr} (h : e.isSymbolic = true) : e.asRead = e.normal := by
  induction e with
  | var x => rfl
  | integer n => rfl
  | unary op e ih =>
    have ih : e.asRead = e.normal := ih h
    cases hsigned : e.signed? op with
    | none => simp only [asRead, normal, hsigned, ih]
    | some n => simp only [asRead, normal, hsigned]
  | binary op l r ihl ihr =>
    rw [isSymbolic, Bool.and_eq_true, Bool.and_eq_true, Bool.not_eq_true'] at h
    rw [asRead_binary, normal, ← ihl h.1.2, ← ihr h.2]
    split
    · rename_i hop
      exact join_eq_chain hop l.asRead r
    · rename_i hop
      exact join_eq_binary h.1.1 hop l.asRead r
  | assign x e ih => rw [asRead, normal, ih h]
  | send e x ih => rw [asRead, normal, ih h]

/-! ## The round trip -/

/-- **An expression is read back as itself**, up to the two changes.  Any of its trees is rendered if
no literal has more digits than can be written; and in the text the reader finds the expression and
nothing else. -/
theorem read_render {e : Expr} {v : Value} (h : IsTree e v) (hsymbolic : e.isSymbolic = true)
    (o : Options) :
    (e.hasLong = false → ∃ text, render o v = .ok text) ∧
      ∀ text, render o v = .ok text → read text = some e.normal := by
  refine ⟨fun hshort => ⟨_, h.render_eq hshort o⟩, fun text hrender => ?_⟩
  rw [h.eq_of_render hrender, read_text, asRead_eq_normal hsymbolic]

/-- The chain `a&&(a&&-3)`, where the minus is an operator, is read as `(a&&a)&&-3`, where it is
the sign of the literal. -/
theorem read_render_chain :
    (binary ⟨.conjunction, rfl⟩ (var .a) (binary ⟨.conjunction, rfl⟩ (var .a)
      (unary ⟨.negative, rfl⟩ (integer 3)))).isSymbolic = true ∧
    ∃ text, render .default (binary ⟨.conjunction, rfl⟩ (var .a) (binary ⟨.conjunction, rfl⟩
        (var .a) (unary ⟨.negative, rfl⟩ (integer 3)))).tree = .ok text ∧
      read text = some (binary ⟨.conjunction, rfl⟩ (binary ⟨.conjunction, rfl⟩ (var .a) (var .a))
        (integer (-3))) := by
  obtain ⟨hrenders, hreads⟩ := read_render (isTree_tree (binary ⟨.conjunction, rfl⟩ (var .a)
    (binary ⟨.conjunction, rfl⟩ (var .a) (unary ⟨.negative, rfl⟩ (integer 3))))) rfl .default
  obtain ⟨text, hrender⟩ := hrenders rfl
  exact ⟨rfl, text, hrender, hreads text hrender⟩

end Expr
end TerseRuby
