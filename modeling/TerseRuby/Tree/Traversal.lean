import TerseRuby.Tree.Value

/-!
# Going through a tree

The children of a node are the nodes in its fields, in the order of the fields: a field that holds
a node contributes it, a field that holds a sequence contributes those of its items that are nodes,
and the location contributes nothing.  `Value.preorder` lists a node and everything below it, a
node before its children and children from left to right.

The question most often asked of a whole subtree is whether any construct in it is closed by an
`end` of its own or is a block (`Value.containsBlock`): such a construct cannot stand before a
trailing condition.
-/

set_option autoImplicit false

namespace TerseRuby
namespace Value

/-- The nodes that a field contributes to the children. -/
def fieldNodes : Value → List Value
  | .seq items => items.filter isNode
  | v => if v.isNode then [v] else []

/-- The children of a node, in the order of its fields. -/
def children : Value → List Value
  | .node kind field => kind.ownFields.flatMap fun entry => fieldNodes (field entry.1)
  | _ => []

mutual

/-- The nodes below a value: for a node, those in its fields and below them; for a sequence, those
among its items and below them. -/
def descendants : Value → List Value
  | .node kind field =>
    kind.ownFields.flatMap fun entry =>
      if (field entry.1).isNode then field entry.1 :: descendants (field entry.1)
      else descendants (field entry.1)
  | .seq items => itemDescendants items
  | _ => []

/-- The nodes among the items of a sequence and below them. -/
def itemDescendants : List Value → List Value
  | [] => []
  | v :: rest => (if v.isNode then v :: descendants v else []) ++ itemDescendants rest

end

/-- A value and every node below it, each node before its children. -/
def preorder (v : Value) : List Value := v :: descendants v

/-! ## Blocks in a subtree -/

/-- Whether the text of a node is closed by its own `end`, or it is a block. -/
def isBlockConstruct (v : Value) : Bool :=
  v.inGroup fun kind => kind.closesWithEnd || kind == .block

/-- Whether a value is a block construct or has one below it. -/
def containsBlock (v : Value) : Bool := v.preorder.any isBlockConstruct

/-- Whether a value assigns a local variable, itself or below. -/
def assignsLocal (v : Value) : Bool := v.preorder.any (isKind .localWrite)

/-- Whether a value has fields to go through: a node or a location. -/
def isRecord {σ : Type} : Value σ → Bool
  | .node _ _ => true
  | .location _ => true
  | _ => false

end Value
end TerseRuby
