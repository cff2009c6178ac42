import TerseRuby.Proofs.Tree.Shape

/-!
# The local variables that a tree declares

Which local variables are known after a tree can be read off the tree, without writing it.  An
assignment to a local variable declares its name, and so do a compound assignment to one, the
variable of a loop and the variable that an exception is bound to.  All other nodes declare what
their parts declare, with these exceptions.

* The parameters and the body of a definition, and everything in a block, are in a scope of their
  own.
* Some parts of a tree are not written at all, so they declare nothing: what stands in the place of
  a block and is neither a block nor a block argument, the value of an assignment in the place of
  a loop variable, and all but the statements of what stands in the place of an `ensure`.

`Value.declared` is this list of names; `Value.declaredAs` gives it for a value in any role.

The other side of local variables is who asks about them.  That is only a call without receiver,
about its own name (`Value.bareNames`).
-/

set_option autoImplicit false

namespace TerseRuby

/-! ## Declarations -/

/-- The fields of a node that are written whole and in the scope of the node itself. -/
@[simp] def Kind.openFields : Kind → List Field
  | .statements => [.body]
  | .methodDef => [.receiver]
  | .classDef => [.constantPath, .superclass]
  | .singletonClass => [.expression]
  | .moduleDef => [.constantPath]
  | .elseBranch => [.statements]
  | .ifThen => [.predicate, .statements, .alternate]
  | .unlessThen => [.predicate, .statements, .alternate]
  | .whenClause => [.conditions, .statements]
  | .caseOf => [.predicate, .conditions, .alternate]
  | .whileLoop => [.predicate, .statements]
  | .untilLoop => [.predicate, .statements]
  | .forLoop => [.collection, .statements]
  | .rescueClause => [.exceptions, .statements]
  | .ensureClause => [.statements]
  | .beginBlock => [.statements, .rescueClauses, .elseClause]
  | .blockArgument => [.expression]
  | .call => [.receiver, .arguments]
  | .logicalAnd => [.left, .right]
  | .logicalOr => [.left, .right]
  | .logicalNot => [.expression]
  | .returnJump => [.arguments]
  | .breakJump => [.arguments]
  | .nextJump => [.arguments]
  | .yieldCall => [.arguments]
  | .superCall => [.arguments]
  | .embedded => [.statements]
  | .interpolated => [.parts]
  | .splat => [.expression]
  | .array => [.elements]
  | .pair => [.key, .value]
  | .doubleSplat => [.value]
  | .hash => [.elements]
  | .keywordHash => [.elements]
  | .range => [.left, .right]
  | .parentheses => [.body]
  | .localWrite => [.value]
  | .instanceWrite => [.value]
  | .globalWrite => [.value]
  | .constantWrite => [.value]
  | .constantPath => [.parent]
  | .operatorWrite => [.target, .value]
  | _ => []

namespace Value

/-- The name that a loop variable declares: that of a local one. -/
def loopNames (v : Value) : List Value :=
  if v.isKind .localRead || v.isKind .localWrite then [v.field .name] else []

/-- The names that a node with the given fields declares itself, apart from its parts. -/
@[simp] def ownNames (kind : Kind) (field : Field → Value) : List Value :=
  match kind with
  | .localWrite => [field .name]
  | .operatorWrite =>
    if (field .target).isKind .localRead then [(field .target).field .name] else []
  | .forLoop => (field .index).loopNames
  | .rescueClause => if (field .reference).isNull then [] else [field .reference]
  | _ => []

mutual

/-- The names that a value declares in the scope around it. -/
def declared : Value → List Value
  | .node kind field =>
    ownNames kind field ++ (kind.openFields.flatMap fun f => declared (field f)) ++
      match kind with
      | .call => declaredInArgument (field .block)
      | .superCall => declaredInArgument (field .block)
      | .beginBlock => declaredInStatements (field .ensureClause)
      | _ => []
  | .seq items => declaredInItems items
  | _ => []

/-- The names that the items of a sequence declare. -/
def declaredInItems : List Value → List Value
  | [] => []
  | v :: rest => declared v ++ declaredInItems rest

/-- The names that what stands in the place of a block declares, if it is a block argument. -/
def declaredInArgument : Value → List Value
  | .node .blockArgument field => declared (field .expression)
  | _ => []

/-- The names that the statements of a node declare. -/
def declaredInStatements : Value → List Value
  | .node _ field => declared (field .statements)
  | _ => []

end

/-! ### Values in their roles -/

/-- The names that a parameter without a default declares; it may have none. -/
def parameterNames (v : Value) : List Value :=
  if (v.field .name).isTrue then [v.field .name] else []

/-- The names that a parameter with a default declares. -/
def defaultNames (v : Value) : List Value := v.field .name :: (v.field .value).declared

/-- The names that a parameter list declares, group by group. -/
def parameterListNames (v : Value) : List Value :=
  (v.field .requireds).elements.flatMap parameterNames ++
    ((v.field .optionals).elements.flatMap defaultNames ++
      (parameterNames (v.field .rest) ++
        ((v.field .posts).elements.flatMap parameterNames ++
          ((v.field .keywords).elements.flatMap defaultNames ++
            (parameterNames (v.field .keywordRest) ++ parameterNames (v.field .block))))))

/-- The names that a value declares when it is written in some role. -/
def declaredAs (v : Value) : Role → List Value
  | .ensureClause => declaredInStatements v
  | .slot => declaredInStatements v
  | .loopVariable => loopNames v
  | .block => []
  | .parameters => parameterListNames v
  | .parameter _ => parameterNames v
  | .optionalParameter => defaultNames v
  | .keywordParameter => defaultNames v
  | _ => declared v

@[simp] theorem declared_seq (items : List Value) :
    declared (.seq items) = items.flatMap declared := by
  rw [declared]
  induction items with
  | nil => rfl
  | cons v rest ih => rw [declaredInItems, ih, List.flatMap_cons]

@[simp] theorem declared_scalar (s : Scalar) : declared (.scalar s) = [] := rfl

@[simp] theorem declared_table (entries : List (String × Json)) : declared (.table entries) = [] :=
  rfl

/-- Something made of elements declares what they declare. -/
theorem flatMap_declared_elements {v : Value} (h : v.isCollection = true) :
    v.elements.flatMap declared = v.declared := by
  cases v with
  | scalar s => cases s <;> simp [elements, List.flatMap_map]
  | table entries => simp [elements, List.flatMap_map]
  | seq items => exact (declared_seq items).symm
  | location l => simp [isCollection] at h
  | node kind field => simp [isCollection] at h

theorem declared_of_not_isTrue {v : Value} (h : v.isTrue = false) : v.declared = [] := by
  cases v with
  | seq items =>
    rw [isTrue, Bool.not_eq_false', List.isEmpty_iff] at h
    simp [h]
  | node kind field => simp [isTrue] at h
  | _ => rfl

theorem eq_null_of_isNull {v : Value} (h : v.isNull = true) : v = .null := by
  rcases v with (_ | _) | _ | _ | _ | _ <;> first | rfl | cases h

theorem declared_of_isNull {v : Value} (h : v.isNull = true) : v.declared = [] := by
  rw [eq_null_of_isNull h]
  rfl

theorem declared_of_isTrivia {v : Value} (h : v.inGroup Kind.isTrivia = true) :
    v.declared = [] := by
  cases v with
  | node kind field => cases kind <;> first | rfl | simp [inGroup, kind?, Kind.isTrivia] at h
  | _ => simp [inGroup, kind?] at h

/-! ## Questions -/

/-- Whether a value is a call without receiver. -/
def isBareCall : Value → Bool
  | .node .call field => (field .receiver).isNull
  | _ => false

/-- The names of the calls without receiver in a tree, wherever they stand. -/
def bareNames (v : Value) : List Value := (v.preorder.filter isBareCall).map (·.field .name)

theorem isNode_of_isBareCall {v : Value} (h : v.isBareCall = true) : v.isNode = true := by
  cases v <;> first | rfl | simp [isBareCall] at h

theorem bareNames_subset {v w : Value}
    (h : ∀ d ∈ w.preorder, d.isNode = true → d ∈ v.preorder) : w.bareNames ⊆ v.bareNames := by
  intro n hn
  simp only [bareNames, List.mem_map, List.mem_filter] at hn ⊢
  obtain ⟨d, ⟨hd, hbare⟩, rfl⟩ := hn
  exact ⟨d, ⟨h d hd (isNode_of_isBareCall hbare), hbare⟩, rfl⟩

/-- A call without receiver in a field of a node is one in the node. -/
theorem bareNames_field_subset {kind : Kind} (field : Field → Value) {f : Field}
    (hf : f ∈ kind.ownFields.map Prod.fst) :
    (field f).bareNames ⊆ (Value.node kind field).bareNames :=
  bareNames_subset fun _ hd hnode => mem_preorder_of_field hf hd hnode

/-- A call without receiver in an item of a sequence is one in the sequence. -/
theorem bareNames_item_subset {items : List Value} {v : Value} (hv : v ∈ items)
    (hnode : v.isNode = true) : v.bareNames ⊆ (Value.seq items).bareNames :=
  bareNames_subset fun _ hd _ => mem_preorder_of_item hv hnode hd

end Value
end TerseRuby
