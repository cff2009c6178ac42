import TerseRuby.Tree.Walk
import Mathlib.Data.List.FinRange
import Mathlib.Logic.Relation

/-!
# The walk is the recursion

`Value.walk` keeps a stack of the nodes still to be visited.  This file says what it comes to: a
node, and then what the walks from its children come to, one after the other.

* `Walk.pending_of_step` is about one round.  Its invariant is about the whole stack: what is
  pending on it loses its first node, which is the one that is visited.  It needs the stack to hold
  nodes only; what is below a sequence is not below any child of it.
* `Walk.run_eq` and `Walk.reaches` carry it through all rounds, up to the empty stack.
* `Value.places` are the places in a tree, each given by the way from the root, child by child, and
  `Value.at?` finds the node at a place.  The places are in the order of the walk
  (`map_at?_places`), and that order is the lexicographic one (`pairwise_places`): a way comes
  before all that go on from it, and what goes by an earlier child before what goes by a later one.
* `Value.HasBlock` says by recursion that a node is a block construct or has one below it.

`Value.walk_eq_recursion` puts this together.
-/

set_option autoImplicit false

namespace TerseRuby

/-- A node is listed before its children and what is below them. -/
theorem Value.preorder_of_isNode {v : Value} (hnode : v.isNode = true) :
    v.preorder = v :: v.children.flatMap preorder := by
  cases v with
  | node kind field => rw [preorder, descendants_node]
  | _ => cases hnode

namespace Walk

/-! ## One round -/

/-- A round leads from one walk to the other. -/
def Step (w w' : Walk) : Prop := w.step = some w'

/-- The stack holds nodes only. -/
def HoldsNodes (w : Walk) : Prop := ∀ v ∈ w.stack, v.isNode = true

theorem holdsNodes_start {v : Value} (hnode : v.isNode = true) : (start v).HoldsNodes := by
  intro u hu
  rw [start, Array.mem_singleton] at hu
  rw [hu]
  exact hnode

theorem HoldsNodes.step {w w' : Walk} (h : w.HoldsNodes) (hstep : Step w w') : w'.HoldsNodes := by
  obtain ⟨below, v, hstack, rfl⟩ := exists_of_step hstep
  intro u hu
  simp only [Array.mem_append, List.mem_toArray, List.mem_reverse] at hu
  obtain hu | hu := hu
  · exact h u (by rw [hstack]; exact Array.mem_push_of_mem v hu)
  · exact Value.isNode_of_mem_children hu

/-- **A round visits the first of the nodes that are pending**, and the others stay so. -/
theorem pending_of_step {w w' : Walk} (h : w.HoldsNodes) (hstep : Step w w') :
    ∃ v, pending w.stack = v :: pending w'.stack ∧ w'.visited = w.visited.push v := by
  obtain ⟨below, v, hstack, rfl⟩ := exists_of_step hstep
  refine ⟨v, ?_, rfl⟩
  have hnode : v.isNode = true := h v (by rw [hstack]; exact Array.mem_push_self)
  rw [hstack, pending_push, pending_append_children, Value.preorder_of_isNode hnode]
  rfl

/-! ## All rounds -/

theorem run_of_step_eq_none {w : Walk} (h : w.step = none) : w.run = w.visited := by
  rw [run]
  split
  · rfl
  · rename_i hsome
    rw [h] at hsome
    cases hsome

theorem run_of_step {w w' : Walk} (h : Step w w') : w.run = w'.run := by
  rw [run]
  split
  · rename_i hnone
    rw [h] at hnone
    cases hnone
  · rename_i w'' hsome
    rw [h] at hsome
    cases hsome
    rfl

/-- A walk ends with an empty stack. -/
theorem stack_eq_of_step_eq_none {w : Walk} (h : w.step = none) : w.stack = #[] :=
  Array.back?_eq_none_iff.mp (Option.map_eq_none_iff.mp h)

/-- **The loop visits what is pending**, in order. -/
theorem run_eq {w : Walk} (h : w.HoldsNodes) :
    w.run = w.visited ++ (pending w.stack).toArray := by
  induction w using run.induct with
  | case1 w hstep =>
    rw [run_of_step_eq_none hstep, stack_eq_of_step_eq_none hstep]
    simp [pending]
  | case2 w w' hstep ih =>
    obtain ⟨v, hpending, hvisited⟩ := pending_of_step h hstep
    rw [run_of_step hstep, ih (h.step hstep), hvisited, hpending]
    simp

/-- **The loop ends**: rounds lead to the empty stack. -/
theorem reaches_run (w : Walk) : Relation.ReflTransGen Step w ⟨#[], w.run⟩ := by
  induction w using run.induct with
  | case1 w hstep =>
    have hw : w = ⟨#[], w.run⟩ := by
      rw [run_of_step_eq_none hstep, ← stack_eq_of_step_eq_none hstep]
    exact hw ▸ .refl
  | case2 w w' hstep ih =>
    rw [run_of_step hstep]
    exact .head hstep ih

end Walk

namespace Value

/-! ## From the loop to the recursion -/

/-- The walk from a node visits the node and all below it. -/
theorem walk_eq_preorder {v : Value} (hnode : v.isNode = true) : v.walk = v.preorder := by
  rw [walk, Walk.run_eq (Walk.holdsNodes_start hnode)]
  simp [Walk.start, Walk.pending]

/-- **The walk is the recursion**: a node, and then the walks from its children. -/
theorem walk_of_isNode {v : Value} (hnode : v.isNode = true) :
    v.walk = v :: v.children.flatMap walk := by
  have hchildren : v.children.flatMap walk = v.children.flatMap preorder :=
    List.flatMap_congr fun c hc => walk_eq_preorder (isNode_of_mem_children hc)
  rw [hchildren, walk_eq_preorder hnode, preorder_of_isNode hnode]

/-! ## Places in a tree -/

/-- The node at a place, which is given by the way to it from the root, child by child. -/
def at? (v : Value) : List Nat → Option Value
  | [] => some v
  | i :: place => v.children[i]?.bind fun c => c.at? place

theorem length_preorder_lt_of_mem_children {v c : Value} (h : c ∈ v.children) :
    c.preorder.length < v.preorder.length := by
  have hle := v.length_flatMap_children_le
  obtain ⟨before, after, hchildren⟩ := List.append_of_mem h
  rw [hchildren, List.flatMap_append, List.flatMap_cons, List.length_append,
    List.length_append] at hle
  have hpreorder : v.preorder.length = v.descendants.length + 1 := rfl
  omega

/-- The places in a tree: the root, and the places below each of its children. -/
def places (v : Value) : List (List Nat) :=
  [] :: (List.finRange v.children.length).flatMap fun i =>
    (places v.children[i]).map (i.val :: ·)
termination_by v.preorder.length
decreasing_by exact length_preorder_lt_of_mem_children (List.getElem_mem _)

/-- A place below the root is a place below the child that leads there. -/
theorem cons_mem_places {v : Value} {i : Nat} {place : List Nat} :
    i :: place ∈ v.places ↔ ∃ c, v.children[i]? = some c ∧ place ∈ c.places := by
  rw [places, List.mem_cons, or_iff_right (List.cons_ne_nil i place), List.mem_flatMap]
  constructor
  · rintro ⟨j, -, hj⟩
    obtain ⟨below, hbelow, heq⟩ := List.mem_map.mp hj
    obtain ⟨rfl, rfl⟩ := List.cons.inj heq
    exact ⟨v.children[j], List.getElem?_eq_getElem j.isLt, hbelow⟩
  · rintro ⟨c, hc, hplace⟩
    obtain ⟨hi, rfl⟩ := List.getElem?_eq_some_iff.mp hc
    exact ⟨⟨i, hi⟩, List.mem_finRange _, List.mem_map.mpr ⟨place, hplace, rfl⟩⟩

/-- The places in a tree are those where there is a node. -/
theorem mem_places_iff {v : Value} {place : List Nat} :
    place ∈ v.places ↔ (v.at? place).isSome = true := by
  induction place generalizing v with
  | nil =>
    rw [places, at?]
    exact iff_of_true (List.mem_cons_self ..) rfl
  | cons i place ih =>
    rw [cons_mem_places, at?, Option.isSome_bind]
    cases v.children[i]? with
    | none => simp
    | some c => simp [ih]

/-- **No place is listed twice**, and the order is the lexicographic one. -/
theorem pairwise_places (v : Value) : v.places.Pairwise (· < ·) := by
  induction v using places.induct with
  | case1 v ih =>
    rw [places, List.pairwise_cons, List.pairwise_flatMap]
    refine ⟨fun place hplace => ?root, fun i _ => ?inside, ?between⟩
    case root =>
      obtain ⟨i, -, hi⟩ := List.mem_flatMap.mp hplace
      obtain ⟨below, -, rfl⟩ := List.mem_map.mp hi
      exact List.nil_lt_cons _ _
    case inside =>
      rw [List.pairwise_map]
      exact (ih i).imp fun h => List.cons_lt_cons_iff.mpr (Or.inr ⟨rfl, h⟩)
    case between =>
      refine (List.pairwise_lt_finRange _).imp fun hij a ha b hb => ?_
      obtain ⟨below, -, rfl⟩ := List.mem_map.mp ha
      obtain ⟨below', -, rfl⟩ := List.mem_map.mp hb
      exact List.cons_lt_cons_iff.mpr (Or.inl hij)

/-- **The walk goes through the places in order.** -/
theorem map_at?_places {v : Value} (hnode : v.isNode = true) :
    v.places.map v.at? = v.walk.map some := by
  induction v using places.induct with
  | case1 v ih =>
    have hbelow (i : Fin v.children.length) :
        ((places v.children[i]).map (i.val :: ·)).map v.at? = (walk v.children[i]).map some := by
      rw [← ih i (isNode_of_mem_children (List.getElem_mem _)), List.map_map]
      refine List.map_congr_left fun place _ => ?_
      rw [Function.comp_apply, at?, List.getElem?_eq_getElem i.isLt]
      rfl
    have hchildren : (List.finRange v.children.length).flatMap (fun i => walk v.children[i]) =
        v.children.flatMap walk := by
      rw [← List.flatMap_map]
      exact congrArg (List.flatMap walk) (List.map_getElem_finRange v.children)
    rw [places, walk_of_isNode hnode, List.map_cons, List.map_cons, List.map_flatMap,
      ← hchildren, List.map_flatMap]
    simp only [hbelow]
    rfl

/-! ## Blocks -/

/-- A node is a block construct, or one of its children has one in turn. -/
inductive HasBlock : Value → Prop where
  | self {v : Value} (h : v.isBlockConstruct = true) : HasBlock v
  | child {v c : Value} (hc : c ∈ v.children) (h : HasBlock c) : HasBlock v

/-- A child is among what the walk goes through, with all that is below it. -/
theorem walk_subset_of_mem_children {v c : Value} (hnode : v.isNode = true)
    (h : c ∈ v.children) : c.walk ⊆ v.walk := by
  intro d hd
  rw [walk_of_isNode hnode]
  exact List.mem_cons_of_mem v (List.mem_flatMap.mpr ⟨c, h, hd⟩)

theorem any_walk_iff_hasBlock {v : Value} (hnode : v.isNode = true) :
    v.walk.any isBlockConstruct = true ↔ HasBlock v := by
  constructor
  · induction v using places.induct with
    | case1 v ih =>
      rw [walk_of_isNode hnode, List.any_cons, Bool.or_eq_true]
      rintro (hself | hbelow)
      · exact .self hself
      · rw [List.any_flatMap, List.any_eq_true] at hbelow
        obtain ⟨c, hc, hany⟩ := hbelow
        obtain ⟨i, hi, rfl⟩ := List.mem_iff_getElem.mp hc
        exact .child hc (ih ⟨i, hi⟩ (isNode_of_mem_children hc) hany)
  · intro h
    induction h with
    | self h =>
      rw [walk_of_isNode hnode, List.any_cons, h, Bool.true_or]
    | @child v c hc _ ih =>
      obtain ⟨d, hd, hblock⟩ := List.any_eq_true.mp (ih (isNode_of_mem_children hc))
      exact List.any_eq_true.mpr ⟨d, walk_subset_of_mem_children hnode hc hd, hblock⟩

/-- **Walking a tree with a stack is the recursion over it.**  Rounds lead from the stack that holds
the node alone to the empty stack.  What was visited then is the node and what the walks from its
children visit, in the order of the children.  It is one node for each place in the tree, in the
order of the places, which is strictly increasing: none comes twice, and each comes before all that
are below it.  A node contains a block construct if and only if the walk from it meets one, which is
so if and only if it is one itself or, in turn, one of its children contains one. -/
theorem walk_eq_recursion {v : Value} (hnode : v.isNode = true) :
    Relation.ReflTransGen Walk.Step (.start v) ⟨#[], v.walk.toArray⟩ ∧
    v.walk = v :: v.children.flatMap walk ∧
    (v.places.Pairwise (· < ·) ∧ (∀ place, place ∈ v.places ↔ (v.at? place).isSome = true) ∧
      v.walk.map some = v.places.map v.at?) ∧
    v.containsBlock = v.walk.any isBlockConstruct ∧
    (v.containsBlock = true ↔ HasBlock v) := by
  have hcontains : v.containsBlock = v.walk.any isBlockConstruct := by
    rw [containsBlock, walk_eq_preorder hnode]
  refine ⟨?_, walk_of_isNode hnode, ⟨pairwise_places v, fun _ => mem_places_iff,
    (map_at?_places hnode).symm⟩, hcontains, ?_⟩
  · rw [walk, Array.toArray_toList]
    exact Walk.reaches_run _
  · rw [hcontains]
    exact any_walk_iff_hasBlock hnode

/-- A call with an array and a loop among its arguments, and a number where a node could be. -/
def nestedCall : Value :=
  .ofFields .call [(.name, .scalar (.str "f")), (.arguments, .seq [
    .ofFields .array [(.elements, .seq [.ofFields .trueLiteral [], .scalar (.int 1),
      .ofFields .falseLiteral []])],
    .ofFields .whileLoop [(.predicate, .ofFields .nilLiteral [])]])]

theorem walk_eq_recursion_nested :
    nestedCall.isNode = true ∧
      nestedCall.walk.map typeName =
        ["Call", "Array", "TrueLiteral", "FalseLiteral", "While", "NilLiteral"] ∧
      nestedCall.containsBlock = true ∧ HasBlock nestedCall := by
  have hnode : nestedCall.isNode = true := rfl
  obtain ⟨-, -, -, hcontains, hblock⟩ := walk_eq_recursion hnode
  have hwalk : nestedCall.walk.map typeName =
      ["Call", "Array", "TrueLiteral", "FalseLiteral", "While", "NilLiteral"] := by
    rw [walk_eq_preorder hnode]
    rfl
  have hsome : nestedCall.containsBlock = true := rfl
  exact ⟨hnode, hwalk, hsome, hblock.mp hsome⟩

end Value
end TerseRuby
