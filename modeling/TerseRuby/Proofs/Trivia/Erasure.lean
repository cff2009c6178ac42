import TerseRuby.Proofs.Tree.Shape
import TerseRuby.Proofs.Writing

/-!
# Trees without comments and blank lines

`Value.erase` takes the comments and blank lines out of all sequences of statements in a tree, and
puts nothing in the place of a body that is just one of them.  What else a node has is left alone:
a comment in the place of an expression stays and is refused as before, and a field that holds
data (a name, a number, the text of a comment) is no part of the tree.

The lemmas here say that the questions of the renderer have the same answers after erasure.  They
look at the kinds of nodes, at data, and at whether something is absent, which erasure leaves as
it is.  Two questions go through a whole subtree, whether it contains a block construct and whether
it assigns a local variable.  They would find what is in a comment, so there the comments have to
be leaves (`Value.hasLeafComments`).
-/

set_option autoImplicit false

namespace TerseRuby

/-! ## Erasure -/

/-- What a field of a node holds. -/
inductive Place where
  /-- Data, which is no part of the tree. -/
  | data
  /-- A tree, or some trees. -/
  | part
  /-- The body of a construct. -/
  | body
  /-- The statements of a sequence. -/
  | statements
  deriving DecidableEq, Repr

/-- What a field of a node of the given kind holds. -/
def Kind.place (kind : Kind) : Field → Place
  | .statements => .body
  | .body => if kind == .statements then .statements else .body
  | .value => if kind == .integer || kind == .float || kind == .symbol then .data else .part
  | .location | .name | .reference | .safeNavigation | .keyword | .content | .exclusive
  | .operator | .text => .data
  | _ => .part

namespace Value

/-- The body that a value is: nothing, if it is a comment or a blank line. -/
def asBody (v : Value) : Value := if v.inGroup Kind.isTrivia then .null else v

/-- A sequence without the comments and blank lines in it. -/
def withoutTrivia : Value → Value
  | .seq items => .seq (items.filter fun v => !v.inGroup Kind.isTrivia)
  | v => v

end Value

/-- What a value becomes in its place, given what it becomes as a tree. -/
def Place.settle (place : Place) (v erased : Value) : Value :=
  match place with
  | .data => v
  | .part => erased
  | .body => erased.asBody
  | .statements => erased.withoutTrivia

namespace Value

mutual

/-- A tree without comments and blank lines. -/
def erase : Value → Value
  | .node kind field => .node kind fun f => (kind.place f).settle (field f) (erase (field f))
  | .seq items => .seq (eraseItems items)
  | v => v

/-- The items of a sequence, without comments and blank lines in them. -/
def eraseItems : List Value → List Value
  | [] => []
  | v :: rest => erase v :: eraseItems rest

end

@[simp] theorem erase_seq (items : List Value) : erase (.seq items) = .seq (items.map erase) := by
  rw [erase]
  congr 1
  induction items with
  | nil => rfl
  | cons v rest ih => rw [eraseItems, ih, List.map_cons]

end Value

/-- The fields of a node after erasure. -/
def Kind.erased (kind : Kind) (field : Field → Value) (f : Field) : Value :=
  (kind.place f).settle (field f) (field f).erase

theorem Value.erase_node (kind : Kind) (field : Field → Value) :
    erase (.node kind field) = .node kind (kind.erased field) := rfl

/-! ## What a value looks like -/

namespace Value

variable (v : Value)

@[simp] theorem kind?_erase : v.erase.kind? = v.kind? := by cases v <;> rfl

@[simp] theorem isKind_erase (kind : Kind) : v.erase.isKind kind = v.isKind kind := by
  rw [isKind, isKind, kind?_erase]

@[simp] theorem inGroup_erase (group : Kind → Bool) : v.erase.inGroup group = v.inGroup group := by
  rw [inGroup, inGroup, kind?_erase]

@[simp] theorem isNode_erase : v.erase.isNode = v.isNode := by cases v <;> rfl

@[simp] theorem isRecord_erase : v.erase.isRecord = v.isRecord := by cases v <;> rfl

@[simp] theorem typeName_erase : v.erase.typeName = v.typeName := by cases v <;> rfl

@[simp] theorem isNull_erase : v.erase.isNull = v.isNull := by cases v <;> rfl

@[simp] theorem isCollection_erase : v.erase.isCollection = v.isCollection := by cases v <;> rfl

@[simp] theorem isTrue_erase : v.erase.isTrue = v.isTrue := by
  cases v with
  | seq items => simp [isTrue]
  | _ => rfl

/-- The elements of a value that is no sequence are texts. -/
theorem elements_erase : v.erase.elements = v.elements.map erase := by
  cases v with
  | scalar s => cases s <;> simp [elements, erase]
  | table entries => simp [elements, erase]
  | location l => rfl
  | seq items => simp [elements]
  | node kind field => rfl

@[simp] theorem length_erase : v.erase.length = v.length := by
  simp [length, elements_erase]

@[simp] theorem elementAt_erase (place : Nat) :
    v.erase.elementAt place = erase <$> v.elementAt place := by
  have hget (w : Value) :
      w.erase.elements.getD place null = erase (w.elements.getD place null) := by
    rw [elements_erase, List.getD_eq_getElem?_getD, List.getElem?_map, List.getD_eq_getElem?_getD]
    rcases w.elements[place]? with _ | _ <;> rfl
  cases v with
  | table entries => rfl
  | scalar s => exact congrArg Except.ok (hget (.scalar s))
  | location l => exact congrArg Except.ok (hget (.location l))
  | seq items =>
    rw [erase_seq]
    exact congrArg Except.ok (by simpa using hget (.seq items))
  | node kind field => exact congrArg Except.ok (hget (.node kind field))

end Value

/-! ## What the rules ask -/

section Questions

variable (kind : Kind) (field : Field → Value)

namespace CallShape

theorem isSingleValue_erase (arguments : Value) :
    isSingleValue arguments.erase = isSingleValue arguments := by
  simp [isSingleValue]

theorem isUnadorned_erased : isUnadorned (kind.erased field) = isUnadorned field := by
  simp [isUnadorned, Kind.erased, Kind.place, Place.settle]

theorem unary?_erased : unary? (kind.erased field) = unary? field := by
  simp [unary?, isUnadorned_erased]
  simp [Kind.erased, Kind.place, Place.settle]

theorem binary?_erased : binary? (kind.erased field) = binary? field := by
  simp [binary?, isUnadorned_erased]
  simp [Kind.erased, Kind.place, Place.settle, isSingleValue_erase]

theorem of_erased : of (kind.erased field) = of field := by
  have hindex : isIndexAssign (kind.erased field) = isIndexAssign field := by
    rw [isIndexAssign, isUnadorned_erased]
    simp [isIndexAssign, Kind.erased, Kind.place, Place.settle]
  have hattribute : isAttributeAssign (kind.erased field) = isAttributeAssign field := by
    simp [isAttributeAssign, Kind.erased, Kind.place, Place.settle, isSingleValue_erase]
  have haccess : isIndex (kind.erased field) = isIndex field := by
    simp [isIndex, Kind.erased, Kind.place, Place.settle]
  have hreceiver : (kind.erased field .receiver).isNull = (field .receiver).isNull := by
    simp [Kind.erased, Kind.place, Place.settle]
  simp only [of, hreceiver, unary?_erased, binary?_erased, hindex, hattribute, haccess]

end CallShape

namespace Value

@[simp] theorem operator?_erase (v : Value) : v.erase.operator? = v.operator? := by
  cases v with
  | node kind field =>
    rw [erase_node]
    cases kind
    case call => rw [operator?, operator?, CallShape.of_erased]
    case range =>
      have hleft : (Kind.range.erased field .left).isNull = (field .left).isNull := isNull_erase _
      have hright : (Kind.range.erased field .right).isNull = (field .right).isNull :=
        isNull_erase _
      rw [operator?, operator?, hleft, hright]
      rfl
    all_goals rfl
  | _ => rfl

@[simp] theorem bindsToSign_erase (v : Value) : v.erase.bindsToSign = v.bindsToSign := by
  cases v with
  | node kind field =>
    rw [erase_node]
    cases kind <;> first
      | rfl
      | simp [bindsToSign, CallShape.of_erased, Kind.erased, Kind.place, Place.settle, isNumber]
  | _ => rfl

@[simp] theorem startsWithBrace_erase (v : Value) :
    v.erase.startsWithBrace = v.startsWithBrace := by
  induction v using Value.induction with
  | node kind field ih =>
    rw [erase_node]
    cases kind <;> first
      | rfl
      | simp [startsWithBrace, CallShape.unary?_erased, Kind.erased, Kind.place, Place.settle, ih]
  | _ => rfl

end Value

@[simp] theorem Rules.keyLabel?_erase (key : Value) :
    Rules.keyLabel? key.erase = Rules.keyLabel? key := by
  cases key with
  | node kind field => cases kind <;> rfl
  | _ => rfl

@[simp] theorem SeparatorState.after_erase (v : Value) :
    SeparatorState.after v.erase = SeparatorState.after v := by
  have hblock : (v.erase.field .block).isKind .block = (v.field .block).isKind .block := by
    cases v with
    | node kind field => exact Value.isKind_erase _ _
    | _ => rfl
  simp [after, hblock]

theorem Rules.isOutputCall_erased (s : Setting) (locals : Locals) :
    Rules.isOutputCall s locals (kind.erased field) = Rules.isOutputCall s locals field := by
  rw [Rules.isOutputCall, CallShape.isUnadorned_erased]
  simp [Rules.isOutputCall, Rules.isOutputArgument, Kind.erased, Kind.place, Place.settle]

end Questions

/-! ## Statements -/

/-- The setting in which comments and blank lines are dropped. -/
def Setting.stripped (s : Setting) : Setting :=
  { s with keepComments := false, keepBlankLines := false }

namespace Sequence

variable {α : Type}

/-- What is neither comment nor blank line. -/
def proper (value : α → Value) (xs : List α) : List α :=
  xs.filter fun x => !(value x).inGroup Kind.isTrivia

theorem isProper_of_mem_proper (value : α → Value) (xs : List α) :
    ∀ x ∈ proper value xs, IsProper (value x) := by
  intro x hx
  rw [IsProper, ← Bool.not_eq_true']
  exact (List.mem_filter.mp hx).2

theorem isKept_stripped (s : Setting) (v : Value) :
    isKept s.stripped v = !v.inGroup Kind.isTrivia := by
  cases v with
  | node kind field => cases kind <;> rfl
  | _ => rfl

/-- Where comments and blank lines are dropped, all others are kept. -/
theorem kept_stripped (s : Setting) (file : Bool) (value : α → Value) (xs : List α) :
    kept s.stripped file value xs = proper value xs := by
  calc kept s.stripped file value xs
      = kept s.stripped file value (proper value xs) := by
        simp only [kept, isKept_stripped, proper, List.filter_filter, Bool.and_self]
    _ = proper value xs := kept_eq _ file (isProper_of_mem_proper value xs)

theorem proper_map {β : Type} (value : β → Value) (f : α → β) (xs : List α) :
    proper value (xs.map f) = (proper (value ∘ f) xs).map f :=
  List.filter_map

end Sequence

namespace Value

theorem sequence_erase (v : Value) : v.erase.sequence = List.map erase <$> v.sequence := by
  rw [sequence, sequence, isCollection_erase, elements_erase, typeName_erase]
  split <;> rfl

/-- Only a sequence has comments and blank lines among its elements. -/
theorem elements_withoutTrivia (v : Value) :
    v.withoutTrivia.elements = Sequence.proper id v.elements := by
  have htexts {α : Type} (f : α → String) (xs : List α) :
      Sequence.proper id (xs.map fun x => Value.scalar (.str (f x))) =
        xs.map fun x => .scalar (.str (f x)) := by
    rw [Sequence.proper_map]
    exact congrArg (List.map _) (List.filter_eq_self.mpr fun _ _ => rfl)
  cases v with
  | scalar s => cases s <;> first | rfl | exact (htexts _ _).symm
  | table entries => exact (htexts _ _).symm
  | _ => rfl

theorem sequence_withoutTrivia (v : Value) :
    v.withoutTrivia.sequence = Sequence.proper id <$> v.sequence := by
  have hcollection : v.withoutTrivia.isCollection = v.isCollection := by cases v <;> rfl
  have htype : v.withoutTrivia.typeName = v.typeName := by cases v <;> rfl
  rw [sequence, sequence, hcollection, htype, elements_withoutTrivia]
  split <;> rfl

theorem proper_map_erase (vs : List Value) :
    Sequence.proper id (vs.map erase) = (Sequence.proper id vs).map erase := by
  rw [Sequence.proper_map]
  simp only [Sequence.proper, Function.comp_apply, id, inGroup_erase]

/-- The statements of a body after erasure. -/
theorem bodyStatements_erase (v : Value) :
    v.erase.asBody.bodyStatements =
      (fun vs => (Sequence.proper id vs).map erase) <$> v.bodyStatements := by
  cases v with
  | scalar s => cases s <;> rfl
  | table entries => rfl
  | location l => rfl
  | seq items => rfl
  | node kind field =>
    cases kind
    case statements =>
      change (field .body).erase.withoutTrivia.sequence = _ <$> (field .body).sequence
      rw [sequence_withoutTrivia, sequence_erase, Functor.map_map]
      simp only [proper_map_erase]
    all_goals rfl

end Value

/-- What is kept after erasure, under any setting, is what is kept where comments and blank lines
are dropped. -/
theorem Sequence.kept_erase (s : Setting) (vs : List Value) :
    kept s false id ((proper id vs).map Value.erase) =
      (kept s.stripped false id vs).map Value.erase := by
  rw [kept_stripped, ← Value.proper_map_erase]
  exact kept_eq s false (isProper_of_mem_proper id _)

theorem SeparatorState.afterAll_erase (vs : List Value) :
    afterAll (vs.map Value.erase) = afterAll vs := by
  rw [afterAll, afterAll, List.getLast?_map]
  rcases vs.getLast? with _ | last
  · rfl
  · exact after_erase last

theorem Sequence.finalState_erase (s : Setting) (v : Value) :
    finalState s v.erase.asBody = finalState s.stripped v := by
  simp [finalState, Value.bodyStatements_erase, kept_erase, SeparatorState.afterAll_erase]

/-- The one statement of a body after erasure. -/
theorem Rules.onlyStatement?_erase (s : Setting) (v : Value) :
    onlyStatement? s v.erase.asBody = Option.map Value.erase <$> onlyStatement? s.stripped v := by
  rw [onlyStatement?, onlyStatement?, Value.bodyStatements_erase]
  simp only [bind_map_left, map_bind, Sequence.kept_erase]
  refine bind_congr fun vs => ?_
  rcases Sequence.kept s.stripped false id vs with _ | ⟨v, _ | ⟨w, vs⟩⟩
  · rfl
  · simp only [List.map_cons, List.map_nil, Value.inGroup_erase]
    split <;> rfl
  · rfl

/-! ## Questions about a whole subtree -/

namespace Value

/-- Whether no comment in a tree has anything below it. -/
def hasLeafComments (v : Value) : Bool :=
  v.preorder.all fun d => !d.isKind .comment || d.descendants.isEmpty

theorem hasLeafComments_field {kind : Kind} {field : Field → Value}
    (h : (Value.node kind field).hasLeafComments = true) {f : Field}
    (hf : f ∈ kind.ownFields.map Prod.fst) : (field f).hasLeafComments = true := by
  refine all_preorder_field (fun v hv => ?_) h hf
  cases v with
  | node kind field => cases hv
  | _ => rfl

theorem hasLeafComments_item {items : List Value}
    (h : (Value.seq items).hasLeafComments = true) {v : Value} (hv : v ∈ items)
    (hnode : v.isNode = true) : v.hasLeafComments = true :=
  all_preorder_item h hv hnode

/-- Whether a value is a node of a group or has one below it. -/
def contains (group : Kind → Bool) (v : Value) : Bool := v.preorder.any (inGroup group)

theorem contains_node (group : Kind → Bool) (kind : Kind) (field : Field → Value) :
    (Value.node kind field).contains group =
      (group kind || kind.ownFields.any fun entry => (field entry.1).contains group) := by
  rw [contains, preorder, descendants, List.any_cons, List.any_flatMap]
  refine congrArg₂ _ rfl (congrArg _ (funext fun entry => ?_))
  split
  · rfl
  · rename_i hleaf
    have hself : (field entry.1).inGroup group = false := by
      cases hv : field entry.1 <;> simp_all [isNode, inGroup, kind?]
    rw [contains, preorder, List.any_cons, hself, Bool.false_or]

theorem contains_seq (group : Kind → Bool) (items : List Value) :
    (Value.seq items).contains group = items.any fun v => v.isNode && v.contains group := by
  have hself : (Value.seq items).inGroup group = false := rfl
  rw [contains, preorder, descendants, List.any_cons, hself, Bool.false_or]
  clear hself
  induction items with
  | nil => rfl
  | cons v rest ih =>
    rw [itemDescendants, List.any_append, ih, List.any_cons]
    congr 1
    cases hnode : v.isNode
    · rfl
    · rfl

theorem any_eq_any_of_mem {α : Type} {xs : List α} {p q : α → Bool} (h : ∀ x ∈ xs, p x = q x) :
    xs.any p = xs.any q := by
  rw [Bool.eq_iff_iff, List.any_eq_true, List.any_eq_true]
  exact exists_congr fun x => and_congr_right fun hx => by rw [h x hx]

section Erasure

variable {group : Kind → Bool} (hgroup : group .comment = false ∧ group .blankLine = false)
include hgroup

/-- A comment or blank line contains nothing of another kind, and neither does what it becomes. -/
theorem contains_of_isTrivia {v : Value} (htrivia : v.inGroup Kind.isTrivia = true)
    (h : v.hasLeafComments = true) : v.contains group = false ∧ v.erase.contains group = false := by
  cases v with
  | node kind field =>
    cases kind
    case comment =>
      have hleaf := List.all_eq_true.mp h _ List.mem_cons_self
      have hcontains : (Value.node .comment field).contains group = false := by
        rw [contains, preorder, List.isEmpty_iff.mp hleaf]
        simpa [inGroup, kind?] using hgroup.1
      refine ⟨hcontains, ?_⟩
      rw [contains_node] at hcontains
      rw [erase_node, contains_node]
      exact hcontains
    case blankLine =>
      rw [erase_node, contains_node, contains_node]
      simp [Kind.ownFields, hgroup.2]
    all_goals cases htrivia
  | _ => cases htrivia

/-- A body without the comment or blank line that it may be. -/
theorem contains_asBody {v : Value} (h : v.hasLeafComments = true)
    (ih : v.erase.contains group = v.contains group) :
    v.erase.asBody.contains group = v.contains group := by
  rw [asBody, inGroup_erase]
  split
  · rw [(contains_of_isTrivia hgroup ‹_› h).1]
    rfl
  · exact ih

/-- A sequence without the comments and blank lines in it. -/
theorem contains_withoutTrivia {v : Value} (h : v.hasLeafComments = true)
    (ih : v.erase.contains group = v.contains group) :
    v.erase.withoutTrivia.contains group = v.contains group := by
  cases v with
  | seq items =>
    rw [← ih, erase_seq, withoutTrivia, contains_seq, contains_seq, List.any_filter, List.any_map,
      List.any_map]
    refine any_eq_any_of_mem fun v hv => ?_
    simp only [Function.comp_apply, inGroup_erase, isNode_erase]
    cases hnode : v.isNode
    · simp
    · cases htrivia : v.inGroup Kind.isTrivia
      · rfl
      · simp [(contains_of_isTrivia hgroup htrivia (hasLeafComments_item h hv hnode)).2]
  | _ => exact ih

/-- Erasure takes nothing away but comments and blank lines. -/
theorem contains_erase {v : Value} (h : v.hasLeafComments = true) :
    v.erase.contains group = v.contains group := by
  induction v using Value.induction with
  | scalar s => rfl
  | table entries => rfl
  | location l => rfl
  | seq items ih =>
    rw [erase_seq, contains_seq, contains_seq, List.any_map]
    refine any_eq_any_of_mem fun v hv => ?_
    rw [Function.comp_apply, isNode_erase]
    cases hnode : v.isNode
    · rfl
    · rw [ih v hv (hasLeafComments_item h hv hnode)]
  | node kind field ih =>
    rw [erase_node, contains_node, contains_node]
    refine congrArg _ (any_eq_any_of_mem fun entry hentry => ?_)
    have hfield := hasLeafComments_field h (List.mem_map_of_mem hentry)
    rw [Kind.erased]
    cases kind.place entry.1 with
    | data => rfl
    | part => exact ih _ hfield
    | body => exact contains_asBody hgroup hfield (ih _ hfield)
    | statements => exact contains_withoutTrivia hgroup hfield (ih _ hfield)

end Erasure

theorem containsBlock_erase {v : Value} (h : v.hasLeafComments = true) :
    v.erase.containsBlock = v.containsBlock :=
  contains_erase (by decide) h

theorem assignsLocal_erase {v : Value} (h : v.hasLeafComments = true) :
    v.erase.assignsLocal = v.assignsLocal := by
  have hgroup : (isKind .localWrite : Value → Bool) = inGroup (· == .localWrite) := by
    funext w
    cases w <;> rfl
  rw [assignsLocal, assignsLocal, hgroup]
  exact contains_erase (by decide) h

end Value

namespace Rules

theorem checkBlock_erase {v : Value} (h : v.isNode = true → v.hasLeafComments = true) :
    checkBlock v.erase = checkBlock v := by
  cases v with
  | node kind field =>
    rw [checkBlock, checkBlock, Value.isRecord_erase, Value.containsBlock_erase (h rfl)]
  | _ => rfl

/-- The statements of a body have leaf comments if the body has. -/
theorem hasLeafComments_of_bodyStatements {body : Value} (h : body.hasLeafComments = true)
    {vs : List Value} (hvs : body.bodyStatements = .ok vs) {v : Value} (hv : v ∈ vs)
    (hnode : v.isNode = true) : v.hasLeafComments = true := by
  have hsingle (hvs : Except.ok [body] = (.ok vs : Except Fault (List Value))) :
      v.hasLeafComments = true := by
    cases hvs
    rwa [List.mem_singleton.mp hv]
  cases body with
  | node kind field =>
    cases kind
    case statements =>
      have hfield : (field .body).hasLeafComments = true :=
        Value.hasLeafComments_field h (by decide)
      rw [Value.bodyStatements, Value.sequence] at hvs
      split at hvs
      · cases hvs
        obtain ⟨items, hitems, hv⟩ := Value.exists_items_of_mem_elements hv hnode
        rw [hitems] at hfield
        exact Value.hasLeafComments_item hfield hv hnode
      · cases hvs
    all_goals exact hsingle hvs
  | scalar s =>
    cases s with
    | null =>
      cases hvs
      exact absurd hv List.not_mem_nil
    | _ => exact hsingle hvs
  | _ => exact hsingle hvs

/-- Whether a conditional has its condition at the end does not change, if comments were dropped
before. -/
theorem isPostfix_erased (s : Setting) {kind : Kind} {field : Field → Value}
    (hstatements : (field .statements).hasLeafComments = true)
    (hpredicate : (field .predicate).hasLeafComments = true) :
    isPostfix s (kind.erased field) = isPostfix s.stripped field := by
  have halternate : (kind.erased field .alternate).isNull = (field .alternate).isNull :=
    Value.isNull_erase _
  have hbody : onlyStatement? s (kind.erased field .statements) =
      Option.map Value.erase <$> onlyStatement? s.stripped (field .statements) :=
    onlyStatement?_erase s _
  have hcondition : checkBlock (kind.erased field .predicate) = checkBlock (field .predicate) :=
    checkBlock_erase fun _ => hpredicate
  have hassigns : (kind.erased field .predicate).assignsLocal = (field .predicate).assignsLocal :=
    Value.assignsLocal_erase hpredicate
  rw [isPostfix, isPostfix, halternate, hbody, hcondition, hassigns]
  split
  · rfl
  rcases honly : onlyStatement? s.stripped (field .statements) with fault | _ | statement
  · rfl
  · rfl
  · have hblock : checkBlock statement.erase = checkBlock statement :=
      checkBlock_erase fun hnode => by
        obtain ⟨vs, hvs, hmem⟩ := mem_of_onlyStatement? honly
        exact hasLeafComments_of_bodyStatements hstatements hvs hmem hnode
    exact congrArg (· >>= fun contains => if contains then pure false else do
      let contains ← checkBlock (field .predicate)
      if contains then return false
      return !(field .predicate).assignsLocal) hblock

end Rules
end TerseRuby
