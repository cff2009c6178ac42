import TerseRuby.Tree.Traversal

/-!
# Walking a tree with a stack

`Value.preorder` lists a node and everything below it by recursion.  The walk comes to the same list
without recursion, so that a deep tree costs no more than a wide one: it keeps a stack of the nodes
that are still to be visited.  In every round the node on top is taken off and visited, and its
children are put on top in reverse, so that the first of them is visited next.

`Walk.step` is one round and `Walk.run` is the loop.  What makes the loop end is `Walk.pending`, all
that is on the stack or below it: every round takes away one node at least.
-/

set_option autoImplicit false

namespace TerseRuby

namespace Value

/-! ## What is below a node -/

/-- The nodes among the items of a sequence and below them, item by item. -/
theorem itemDescendants_eq (items : List Value) :
    itemDescendants items = (items.filter isNode).flatMap preorder := by
  induction items with
  | nil => rfl
  | cons v rest ih =>
    rw [itemDescendants, ih]
    cases hnode : v.isNode with
    | true => rw [List.filter_cons_of_pos hnode, List.flatMap_cons, if_pos rfl]; rfl
    | false => rw [List.filter_cons_of_neg (by simp [hnode]), if_neg Bool.false_ne_true]; rfl

/-- A field contributes what its nodes list. -/
theorem flatMap_fieldNodes (v : Value) :
    (fieldNodes v).flatMap preorder = if v.isNode then v :: v.descendants else v.descendants := by
  cases v with
  | seq items => rw [descendants, itemDescendants_eq]; rfl
  | node kind field => exact List.flatMap_singleton ..
  | scalar s => rfl
  | table entries => rfl
  | location l => rfl

/-- Below a node are its children and what is below them. -/
theorem descendants_node (kind : Kind) (field : Field → Value) :
    (node kind field).descendants = (node kind field).children.flatMap preorder := by
  rw [descendants, children, List.flatMap_assoc]
  simp only [flatMap_fieldNodes]

theorem isNode_of_mem_fieldNodes {v c : Value} (h : c ∈ fieldNodes v) : c.isNode = true := by
  cases v with
  | seq items => exact (List.mem_filter.mp h).2
  | node kind field => rw [List.mem_singleton.mp h]; rfl
  | scalar s => cases h
  | table entries => cases h
  | location l => cases h

/-- Children are nodes. -/
theorem isNode_of_mem_children {v c : Value} (h : c ∈ v.children) : c.isNode = true := by
  cases v with
  | node kind field =>
    obtain ⟨entry, -, hc⟩ := List.mem_flatMap.mp h
    exact isNode_of_mem_fieldNodes hc
  | seq items => cases h
  | scalar s => cases h
  | table entries => cases h
  | location l => cases h

/-- The children list no more than what is below a value; of a sequence it is less. -/
theorem length_flatMap_children_le (v : Value) :
    (v.children.flatMap preorder).length ≤ v.descendants.length := by
  cases v with
  | node kind field => exact Nat.le_of_eq (congrArg List.length (descendants_node kind field).symm)
  | seq items => exact Nat.zero_le _
  | scalar s => exact Nat.le_refl _
  | table entries => exact Nat.le_refl _
  | location l => exact Nat.le_refl _

end Value

/-! ## The loop -/

/-- A walk on its way. -/
structure Walk where
  /-- The nodes that are still to be visited, the next one last. -/
  stack : Array Value
  /-- The nodes that were visited, in order. -/
  visited : Array Value

namespace Walk

/-- A walk that starts at a node. -/
def start (v : Value) : Walk := ⟨#[v], #[]⟩

/-- One round: visit the node on top of the stack and put its children in its place.  There is none
when the stack is empty. -/
def step (w : Walk) : Option Walk :=
  w.stack.back?.map fun v => ⟨w.stack.pop ++ v.children.reverse.toArray, w.visited.push v⟩

/-- What a round does. -/
theorem exists_of_step {w w' : Walk} (h : w.step = some w') :
    ∃ (below : Array Value) (v : Value), w.stack = below.push v ∧
      w' = ⟨below ++ v.children.reverse.toArray, w.visited.push v⟩ := by
  obtain ⟨v, hv, rfl⟩ := Option.map_eq_some_iff.mp h
  obtain ⟨below, hstack⟩ := Array.back?_eq_some_iff.mp hv
  refine ⟨below, v, hstack, ?_⟩
  rw [hstack, Array.pop_push]

/-- All that a stack holds: its nodes and what is below them, in the order of visiting. -/
def pending (stack : Array Value) : List Value := stack.toList.reverse.flatMap Value.preorder

theorem pending_push (stack : Array Value) (v : Value) :
    pending (stack.push v) = v.preorder ++ pending stack := by
  simp [pending]

theorem pending_append_children (stack : Array Value) (v : Value) :
    pending (stack ++ v.children.reverse.toArray) =
      v.children.flatMap Value.preorder ++ pending stack := by
  simp [pending]

/-- Every round takes away what it visits. -/
theorem length_pending_lt {w w' : Walk} (h : w.step = some w') :
    (pending w'.stack).length < (pending w.stack).length := by
  obtain ⟨below, v, hstack, rfl⟩ := exists_of_step h
  rw [hstack, pending_push, pending_append_children, List.length_append, List.length_append]
  have hle := v.length_flatMap_children_le
  have hpreorder : v.preorder.length = v.descendants.length + 1 := rfl
  omega

/-- Rounds until the stack is empty, and the nodes that were visited then. -/
def run (w : Walk) : Array Value :=
  match _h : w.step with
  | none => w.visited
  | some w' => run w'
termination_by (pending w.stack).length
decreasing_by exact length_pending_lt _h

end Walk

/-- The nodes that a walk from the given one visits, in order. -/
def Value.walk (v : Value) : List Value := (Walk.start v).run.toList

end TerseRuby
