import TerseRuby.Proofs.Locals.Rules

/-!
# The variables known after a tree

The renderer keeps track of the local variables while it writes, and every construct that declares
one does so in its own place.  The main result here is that nothing is missed and nothing leaks:
after a tree is written, the variables known are those known before and those that the tree
declares, which is a matter of the tree alone.
-/

set_option autoImplicit false

namespace TerseRuby

namespace Locals

/-- Only which names there are decides about a question, not their order or number. -/
theorem has_eq_of_mem {l l' : Locals} (h : ∀ n, n ∈ l ↔ n ∈ l') (s : Setting) (name : Value) :
    l.has s name = l'.has s name := by
  rw [has, has, Bool.eq_iff_iff, List.any_eq_true, List.any_eq_true]
  simp only [h]

theorem has_append (s : Setting) (l l' : Locals) (name : Value) :
    has s (l ++ l') name = (has s l name || has s l' name) :=
  List.any_append

end Locals

/-- A role in which a node is written by itself. -/
def Role.isAlone : Role → Bool
  | .expression => true
  | .statement => true
  | _ => false

namespace Value

/-- The names known after a tree, one by one. -/
theorem mem_locals_iff {v : Value} {role : Role} (hrole : role.isAlone = true) {s : Setting}
    {l l' : Locals} {d : Draft} (h : ((v.rendition.write role).run s).run l = .ok (d, l'))
    (n : Value) : n ∈ l' ↔ n ∈ l ∨ n ∈ v.declared := by
  have hrole : v.fits role = true ∧ v.declaredAs role = v.declared := by
    cases role <;> first | exact ⟨rfl, rfl⟩ | cases hrole
  have henters := (enters_rendition v (fun _ => True) fun _ _ => trivial).whole role
  rw [rendition_value] at henters
  obtain ⟨added, rfl, hadded⟩ := (henters hrole.1).added h
  rw [List.mem_append, hadded, hrole.2, or_comm]

/-- **The variables known after a tree are those known before and those it declares.**  This holds
for every node that is written, as an expression or as a statement, under every setting and with
any variables known before.  What comes next is written under the setting as it was.  And the
names do not depend on the setting, nor on the role, which decides whether the condition of a
conditional is written at the end. -/
theorem locals_after_written (v : Value) {role : Role} (hrole : role.isAlone = true) {s : Setting}
    {l l' : Locals} {d : Draft} (h : ((v.rendition.write role).run s).run l = .ok (d, l')) :
    (∀ n, n ∈ l' ↔ n ∈ l ∨ n ∈ v.declared) ∧
      (∀ (t : Setting) (n : Value), l'.has t n = (l.has t n || Locals.has t v.declared n)) ∧
      (∀ {α : Type} (next : Draft → Writer α),
        ((v.rendition.write role >>= next).run s).run l = ((next d).run s).run l') ∧
      ∀ {role₂ : Role} {s₂ : Setting} {d₂ : Draft} {l₂ : Locals}, role₂.isAlone = true →
        ((v.rendition.write role₂).run s₂).run l = .ok (d₂, l₂) → ∀ n, n ∈ l₂ ↔ n ∈ l' := by
  refine ⟨mem_locals_iff hrole h, fun t n => ?_, fun next => ?_, fun hrole₂ h₂ n => ?_⟩
  · rw [← Locals.has_append]
    exact Locals.has_eq_of_mem (fun n => by rw [mem_locals_iff hrole h, List.mem_append]) t n
  · rw [ReaderT.run_bind, StateT.run_bind, h]
    rfl
  · rw [mem_locals_iff hrole₂ h₂, mem_locals_iff hrole h]

/-- A loop over a list that assigns a variable under a condition, and defines a method that assigns
another one. -/
def scopedLoop : Value :=
  let name (text : String) : Value := .scalar (.str text)
  let assign (text : String) : Value :=
    .ofFields .localWrite [(.name, name text), (.value, .ofFields .nilLiteral [])]
  .ofFields .forLoop
    [(.index, .ofFields .localRead [(.name, name "i")]),
      (.collection, .ofFields .array []),
      (.statements, .ofFields .statements [(.body, .seq
        [.ofFields .ifThen
          [(.predicate, .ofFields .selfLiteral []), (.statements, assign "x")],
        .ofFields .methodDef [(.name, name "m"), (.body, assign "y")]])])]

theorem locals_after_written_loop :
    ∃ d, ((scopedLoop.rendition.write .statement).run (Setting.ofOptions .default)).run [] =
        .ok (d, [.scalar (.str "x"), .scalar (.str "i")]) ∧
      ∀ n, n ∈ [Value.scalar (.str "x"), .scalar (.str "i")] ↔
        n ∈ [] ∨ n ∈ scopedLoop.declared := by
  have hwritten : ∃ d, ((scopedLoop.rendition.write .statement).run
      (Setting.ofOptions .default)).run [] =
        .ok (d, [.scalar (.str "x"), .scalar (.str "i")]) := ⟨_, rfl⟩
  obtain ⟨d, hwritten⟩ := hwritten
  exact ⟨d, hwritten, (locals_after_written scopedLoop rfl hwritten).1⟩

end Value
end TerseRuby
