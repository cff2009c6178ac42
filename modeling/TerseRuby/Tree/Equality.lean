import TerseRuby.Tree.Value

/-!
# Equality of trees

Two trees are the same program when they agree in everything but the places where they were read:
nodes of one kind with the same fields, location apart, sequences item by item, and leaves by the
value they denote.
-/

set_option autoImplicit false

namespace TerseRuby

namespace Value

variable {σ : Type} [DecidableEq σ]

mutual

/-- Equality of trees up to the locations of nodes, given that of scalars. -/
def sameBy (eq : Scalar σ → Scalar σ → Bool) : Value σ → Value σ → Bool
  | .scalar a, .scalar b => eq a b
  | .table a, .table b => (Json.object a).sameBy eq (.object b)
  | .location a, .location b => a.sameBy eq b
  | .seq xs, .seq ys => sameItemsBy eq xs ys
  | .node kind field, .node kind' field' =>
    kind == kind' && kind.ownFields.all fun entry => sameBy eq (field entry.1) (field' entry.1)
  | _, _ => false

/-- Equality of sequences, item by item. -/
def sameItemsBy (eq : Scalar σ → Scalar σ → Bool) : List (Value σ) → List (Value σ) → Bool
  | [], [] => true
  | x :: xs, y :: ys => sameBy eq x y && sameItemsBy eq xs ys
  | _, _ => false

end

/-- Equality of trees up to the locations of nodes. -/
def same (a b : Value σ) : Bool := sameBy Scalar.same a b

end Value
end TerseRuby
