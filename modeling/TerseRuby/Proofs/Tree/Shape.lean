import TerseRuby.Proofs.Literal.Slots
import TerseRuby.Render
import Mathlib.Data.List.Forall2

/-!
# What the shape of a tree tells

The rules ask what a tree looks like and go on from the answer.  The lemmas here lead from an answer
back to the tree: which kind has a certain field, what is below a node, and what the fields of a
call are if it is written in a certain form.
-/

set_option autoImplicit false

namespace TerseRuby

/-- A computation that did not fail did not fail at its first step. -/
theorem exists_of_bind_eq_ok {α β : Type} {e : Except Fault α} {f : α → Except Fault β} {b : β}
    (h : e >>= f = .ok b) : ∃ a, e = .ok a ∧ f a = .ok b := by
  cases e with
  | error fault => cases h
  | ok a => exact ⟨a, rfl, h⟩

/-! ## Rows that are related item by item -/

/-- Two items that are related. -/
structure RelatedPair {α β : Type} (R : α → β → Prop) where
  /-- The first item. -/
  before : α
  /-- The second item. -/
  after : β
  /-- They are related. -/
  related : R before after

section RelatedPair

variable {α β : Type} {R : α → β → Prop}

/-- Two rows that are related item by item are one row of pairs. -/
theorem exists_pairs {xs : List α} {ys : List β} (h : List.Forall₂ R xs ys) :
    ∃ zs : List (RelatedPair R), xs = zs.map (·.before) ∧ ys = zs.map (·.after) := by
  induction h with
  | nil => exact ⟨[], rfl, rfl⟩
  | cons hxy _ ih =>
    obtain ⟨zs, rfl, rfl⟩ := ih
    exact ⟨⟨_, _, hxy⟩ :: zs, rfl, rfl⟩

theorem forall₂_pairs (zs : List (RelatedPair R)) :
    List.Forall₂ R (zs.map (·.before)) (zs.map (·.after)) := by
  induction zs with
  | nil => exact .nil
  | cons z zs ih => exact .cons z.related ih

end RelatedPair

/-! ## Kinds -/

theorem Kind.eq_of_has_requireds {kind : Kind} (h : kind.has .requireds = true) :
    kind = .parameters := by
  revert h
  cases kind <;> decide

theorem Kind.eq_of_has_conditions {kind : Kind} (h : kind.has .conditions = true)
    (h' : kind.has .statements = true) : kind = .whenClause := by
  revert h h'
  cases kind <;> decide

theorem Kind.eq_of_has_exceptions {kind : Kind} (h : kind.has .exceptions = true) :
    kind = .rescueClause := by
  revert h
  cases kind <;> decide

/-- Whether nodes of a kind have a field, their location apart. -/
def Kind.owns (kind : Kind) (f : Field) : Bool := kind.ownFields.any fun entry => entry.1 == f

theorem Kind.mem_ownFields_of_owns {kind : Kind} {f : Field} (h : kind.owns f = true) :
    f ∈ kind.ownFields.map Prod.fst := by
  obtain ⟨entry, hentry, heq⟩ := List.any_eq_true.mp h
  exact List.mem_map.mpr ⟨entry, hentry, eq_of_beq heq⟩

/-- A field that a kind has is its location or one of its own. -/
theorem Kind.owns_of_has {kind : Kind} {f : Field} (hf : f ≠ .location)
    (h : kind.has f = true) : kind.owns f = true := by
  rw [has, fields, List.any_cons, Bool.or_eq_true] at h
  rcases h with h | h
  · exact absurd (eq_of_beq h).symm hf
  · exact h

theorem Kind.any_owns_of_any_has {kind? : Option Kind} {f : Field} (hf : f ≠ .location)
    (h : kind?.any (·.has f) = true) : kind?.any (·.owns f) = true := by
  obtain ⟨kind, hkind, hhas⟩ := (Option.any_eq_true _ _).mp h
  exact (Option.any_eq_true _ _).mpr ⟨kind, hkind, owns_of_has hf hhas⟩

namespace Value

theorem exists_of_kind? {v : Value} {kind : Kind} (h : v.kind? = some kind) :
    ∃ field, v = .node kind field := by
  cases v with
  | node kind' field =>
    cases h
    exact ⟨field, rfl⟩
  | _ => cases h

theorem exists_of_isKind {v : Value} {kind : Kind} (h : v.isKind kind = true) :
    ∃ field, v = .node kind field :=
  exists_of_kind? (eq_of_beq h)

/-- Only a sequence has nodes among its elements. -/
theorem exists_items_of_mem_elements {v w : Value} (hv : v ∈ w.elements)
    (hnode : v.isNode = true) : ∃ items, w = .seq items ∧ v ∈ items := by
  cases w with
  | seq items => exact ⟨items, rfl, hv⟩
  | scalar s =>
    cases s with
    | str text =>
      obtain ⟨c, _, rfl⟩ := List.mem_map.mp hv
      cases hnode
    | _ => exact absurd hv List.not_mem_nil
  | table entries =>
    obtain ⟨entry, _, rfl⟩ := List.mem_map.mp hv
    cases hnode
  | _ => exact absurd hv List.not_mem_nil

/-! ## Renditions -/

/-- Whether a value can be asked to play a role.  A slot and a block are written only where the kind
of the value was looked at before. -/
def fits (v : Value) : Role → Bool
  | .slot => v.isKind .embedded
  | .block => v.isKind .block
  | _ => true

theorem toRendition_of_not_isNode {v : Value} (h : v.isNode = false) :
    v.rendition.toRendition = v.leafRendition := by
  cases v with
  | node kind field => cases h
  | _ => rfl

/-- The elements of a rendition, one by one. -/
theorem rendition_elements_eq (v : Value) :
    v.rendition.elements = v.elements.map fun e => e.rendition.toRendition := by
  have hleaf (v : Value) (hv : ∀ items, v ≠ .seq items) :
      v.elements.map leafRendition = v.elements.map fun e => e.rendition.toRendition := by
    refine List.map_congr_left fun e he => (toRendition_of_not_isNode ?_).symm
    rw [← Bool.not_eq_true]
    intro hnode
    obtain ⟨items, hitems, _⟩ := exists_items_of_mem_elements he hnode
    exact hv items hitems
  cases v with
  | node kind field => rfl
  | seq items => exact itemRenditions_eq_map items
  | scalar s => exact hleaf _ fun items hitems => by cases hitems
  | table entries => exact hleaf _ fun items hitems => by cases hitems
  | location l => rfl

/-! ## Going through a tree -/

/-- A node in or below a field of a node is one below the node. -/
theorem mem_preorder_of_field {kind : Kind} {field : Field → Value} {f : Field}
    (hf : f ∈ kind.ownFields.map Prod.fst) {d : Value} (hd : d ∈ (field f).preorder)
    (hnode : d.isNode = true) : d ∈ (Value.node kind field).preorder := by
  obtain ⟨entry, hentry, rfl⟩ := List.mem_map.mp hf
  rw [preorder, descendants]
  refine List.mem_cons_of_mem _ (List.mem_flatMap.mpr ⟨entry, hentry, ?_⟩)
  split
  · exact hd
  · rename_i hleaf
    rcases List.mem_cons.mp hd with rfl | hd
    · exact absurd hnode hleaf
    · exact hd

/-- A node in or below an item of a sequence is one below the sequence, if the item is a node: what
is inside another sequence does not count. -/
theorem mem_preorder_of_item {items : List Value} {v : Value} (hv : v ∈ items)
    (hnode : v.isNode = true) {d : Value} (hd : d ∈ v.preorder) :
    d ∈ (Value.seq items).preorder := by
  rw [preorder, descendants]
  refine List.mem_cons_of_mem _ ?_
  induction items with
  | nil => exact absurd hv List.not_mem_nil
  | cons w rest ih =>
    rw [itemDescendants, List.mem_append]
    rcases List.mem_cons.mp hv with rfl | hv
    · rw [if_pos hnode]
      exact .inl hd
    · exact .inr (ih hv)

/-- What holds of all nodes of a tree holds of all nodes in a field of it. -/
theorem all_preorder_field {p : Value → Bool} (hleaf : ∀ v : Value, v.isNode = false → p v = true)
    {kind : Kind} {field : Field → Value} (h : (Value.node kind field).preorder.all p = true)
    {f : Field} (hf : f ∈ kind.ownFields.map Prod.fst) : (field f).preorder.all p = true := by
  rw [List.all_eq_true] at h ⊢
  intro d hd
  cases hnode : d.isNode
  · exact hleaf d hnode
  · exact h d (mem_preorder_of_field hf hd hnode)

/-- And so it does for the items of a sequence that are nodes. -/
theorem all_preorder_item {p : Value → Bool} {items : List Value}
    (h : (Value.seq items).preorder.all p = true) {v : Value} (hv : v ∈ items)
    (hnode : v.isNode = true) : v.preorder.all p = true := by
  rw [List.all_eq_true] at h ⊢
  exact fun d hd => h d (mem_preorder_of_item hv hnode hd)

end Value

/-! ## Statements -/

/-- A body that is a node of any other kind is a single statement. -/
theorem Value.bodyStatements_node {kind : Kind} (h : kind ≠ .statements)
    (field : Field → Value) : (Value.node kind field).bodyStatements = .ok [.node kind field] := by
  cases kind <;> first | rfl | exact absurd rfl h

/-- A body that is no node has no nodes among its statements. -/
theorem Value.isNode_of_bodyStatements {v w : Value} {vs : List Value} (hleaf : v.isNode = false)
    (hvs : v.bodyStatements = .ok vs) (hw : w ∈ vs) : w.isNode = false := by
  have hvalue : vs = [] ∨ vs = [v] := by
    cases v with
    | node kind field => cases hleaf
    | scalar s => cases s <;> cases hvs <;> simp
    | _ =>
      cases hvs
      exact .inr rfl
  obtain rfl | rfl := hvalue
  · cases hw
  · rwa [List.mem_singleton.mp hw]

theorem Sequence.kept_subset {α : Type} (s : Setting) (file : Bool) (value : α → Value)
    (xs : List α) : kept s file value xs ⊆ xs := by
  intro x hx
  rw [kept] at hx
  split at hx
  · exact (List.mem_filter.mp ((List.dropWhile_sublist _).subset (List.mem_reverse.mp
      ((List.dropWhile_sublist _).subset (List.mem_reverse.mp hx))))).1
  · exact (List.mem_filter.mp hx).1

theorem Sequence.kept_map {α β : Type} (s : Setting) (file : Bool) (value : β → Value) (f : α → β)
    (xs : List α) : kept s file value (xs.map f) = (kept s file (value ∘ f) xs).map f := by
  simp only [kept, trim, List.filter_map]
  split
  · simp [List.dropWhile_map, ← List.map_reverse, Function.comp_def]
  · rfl

/-- The one statement of a body is all that is written of it, and it is no comment or blank line. -/
theorem Rules.kept_of_onlyStatement? {s : Setting} {body v : Value}
    (h : onlyStatement? s body = .ok (some v)) :
    ∃ vs, body.bodyStatements = .ok vs ∧ Sequence.kept s false id vs = [v] ∧
      v.inGroup Kind.isTrivia = false := by
  obtain ⟨vs, hvs, h⟩ := exists_of_bind_eq_ok h
  refine ⟨vs, hvs, ?_⟩
  split at h
  · rename_i statement hkept
    have hsome := Except.ok.inj h
    split at hsome
    · cases hsome
    · rename_i hproper
      cases hsome
      exact ⟨hkept, Bool.eq_false_iff.mpr hproper⟩
  · cases h

/-- The one statement of a body is one of its statements. -/
theorem Rules.mem_of_onlyStatement? {s : Setting} {body v : Value}
    (h : onlyStatement? s body = .ok (some v)) : ∃ vs, body.bodyStatements = .ok vs ∧ v ∈ vs := by
  obtain ⟨vs, hvs, hkept, -⟩ := kept_of_onlyStatement? h
  refine ⟨vs, hvs, Sequence.kept_subset s false id vs ?_⟩
  rw [hkept]
  exact List.mem_singleton_self v

/-! ## Calls -/

namespace CallShape

variable {field : Field → Value} {op : Operator}

/-- Which question was answered for a call of some form. -/
theorem cases_of_eq_ok {shape : CallShape} (h : of field = .ok shape) :
    (shape = .plain ∨ shape = .index) ∨
      (∃ op, shape = .unary op ∧ unary? field = .ok (some op)) ∨
      (∃ op, shape = .binary op ∧ binary? field = .ok (some op)) ∨
      (shape = .indexAssign ∧ isIndexAssign field = .ok true) ∨
      (shape = .attributeAssign ∧ isAttributeAssign field = .ok true) := by
  rw [of] at h
  split at h
  · cases h
    exact .inl (.inl rfl)
  obtain ⟨unary, hunary, h⟩ := exists_of_bind_eq_ok h
  split at h
  · cases h
    exact .inr (.inl ⟨_, rfl, hunary⟩)
  obtain ⟨binary, hbinary, h⟩ := exists_of_bind_eq_ok h
  split at h
  · cases h
    exact .inr (.inr (.inl ⟨_, rfl, hbinary⟩))
  obtain ⟨indexAssign, hindexAssign, h⟩ := exists_of_bind_eq_ok h
  split at h
  · cases h
    exact .inr (.inr (.inr (.inl ⟨rfl, by simp_all⟩)))
  obtain ⟨attributeAssign, hattributeAssign, h⟩ := exists_of_bind_eq_ok h
  split at h
  · cases h
    exact .inr (.inr (.inr (.inr ⟨rfl, by simp_all⟩)))
  · cases h
    split
    · exact .inl (.inr rfl)
    · exact .inl (.inl rfl)

/-- An operator before its operand has no arguments and no block. -/
theorem of_unary?_eq_some (h : unary? field = .ok (some op)) :
    (field .arguments).isTrue = false ∧ isUnadorned field = true := by
  obtain ⟨found, _, h⟩ := exists_of_bind_eq_ok h
  obtain ⟨_, hop⟩ := Option.filter_eq_some_iff.mp (Except.ok.inj h)
  simpa using hop

/-- An operator between two operands has one argument and no block. -/
theorem of_binary?_eq_some (h : binary? field = .ok (some op)) :
    isSingleValue (field .arguments) = .ok true ∧ isUnadorned field = true := by
  obtain ⟨found, _, h⟩ := exists_of_bind_eq_ok h
  split at h
  · cases h
  · obtain ⟨single, hsingle, h⟩ := exists_of_bind_eq_ok h
    have hboth := Except.ok.inj h
    split at hboth
    · simp_all
    · cases hboth

theorem of_isIndexAssign (h : isIndexAssign field = .ok true) :
    (field .arguments).isCollection = true ∧ isUnadorned field = true := by
  rw [isIndexAssign] at h
  split at h
  · cases h
  · obtain ⟨length, hlength, h⟩ := exists_of_bind_eq_ok h
    have hboth := Except.ok.inj h
    rw [Value.length] at hlength
    split at hlength
    · simp_all
    · cases hlength

theorem of_isAttributeAssign (h : isAttributeAssign field = .ok true) :
    isSingleValue (field .arguments) = .ok true ∧ (field .block).isNull = true := by
  rw [isAttributeAssign] at h
  split at h
  · cases h
  · split at h
    · cases h
    · obtain ⟨single, hsingle, h⟩ := exists_of_bind_eq_ok h
      have hboth := Except.ok.inj h
      simp_all

/-- A single argument is the only element of the arguments. -/
theorem of_isSingleValue {arguments : Value} (h : isSingleValue arguments = .ok true) :
    arguments.isCollection = true ∧ ∃ v, arguments.elements = [v] := by
  obtain ⟨length, hlength, h⟩ := exists_of_bind_eq_ok h
  rw [Value.length] at hlength
  split at hlength
  · refine ⟨‹_›, List.length_eq_one_iff.mp ?_⟩
    cases hlength
    split at h
    · cases h
    · simp_all
  · cases hlength

theorem block_isNull_of_isUnadorned (h : isUnadorned field = true) :
    (field .block).isNull = true := by
  rw [isUnadorned, Bool.and_eq_true] at h
  exact h.1

end CallShape

theorem Rules.dot_eq {c c' : Field → FieldRendition}
    (h : (c' .safeNavigation).value = (c .safeNavigation).value) : dot c' = dot c := by
  rw [dot, dot, h]

/-! ## Strings with slots -/

namespace Literal

variable {σ : Type}

theorem slotsOf_append (front back : List (Segment σ)) :
    slotsOf (front ++ back) = slotsOf front ++ slotsOf back := by
  induction front with
  | nil => rfl
  | cons segment front ih => cases segment <;> simp [slotsOf, ih]

theorem slotsOf_flush {p : Pending} {segments : List (Segment σ)}
    (h : p.flush = .ok segments) : slotsOf segments = [] := by
  rw [Pending.flush] at h
  split at h
  · cases h
  · cases h
    split <;> rfl

/-- A slot after pending runs. -/
theorem slotsOf_segmentsAfter_slot {content : σ} {parts : List (Part σ)} {p : Pending}
    {segments : List (Segment σ)} (h : segmentsAfter p (.slot content :: parts) = .ok segments) :
    ∃ rest, segmentsAfter .empty parts = .ok rest ∧
      slotsOf segments = content :: slotsOf rest := by
  rw [segmentsAfter] at h
  obtain ⟨run, hrun, h⟩ := exists_of_bind_eq_ok h
  obtain ⟨rest, hrest, h⟩ := exists_of_bind_eq_ok h
  cases h
  exact ⟨rest, hrest, by rw [slotsOf_append, slotsOf_flush hrun]; rfl⟩

end Literal

namespace Rules

variable {α : Type} {value : α → Value}

/-- What the parts of a string are: runs of characters, slots, and what is refused. -/
theorem stringPart_cases (value : α → Value) (x : α) :
    ((value x).isKind .string = true ∧
        ((∃ text, stringPart value x = .run text) ∨
          ∃ typeName, stringPart value x = .foreign typeName)) ∨
      ((value x).isKind .embedded = true ∧ stringPart value x = .slot x) ∨
      ∃ kind, stringPart value x = .other kind := by
  rw [stringPart]
  split
  · rename_i hvalue
    rw [hvalue]
    refine .inl ⟨rfl, ?_⟩
    split
    · exact .inl ⟨_, rfl⟩
    · exact .inr ⟨_, rfl⟩
  · rename_i hvalue
    exact .inr (.inl ⟨by rw [hvalue]; rfl, rfl⟩)
  · exact .inr (.inr ⟨_, rfl⟩)

/-- The parts of a string that is not refused are runs of characters and slots, and the slots are
written in order. -/
theorem slotsOf_segmentsAfter {xs : List α} {p : Literal.Pending}
    {segments : List (Literal.Segment α)}
    (h : Literal.segmentsAfter p (xs.map (stringPart value)) = .ok segments) :
    Literal.slotsOf segments = xs.filter (fun x => (value x).isKind .embedded) ∧
      ∀ x ∈ xs, (value x).isKind .string = true ∨ (value x).isKind .embedded = true := by
  induction xs generalizing p segments with
  | nil => exact ⟨Literal.slotsOf_flush h, List.forall_mem_nil _⟩
  | cons x xs ih =>
    rw [List.map_cons] at h
    -- a run leaves the slots to the parts after it
    have hrun (p : Literal.Pending) (hkind : (value x).isKind .string = true)
        (h : Literal.segmentsAfter p (xs.map (stringPart value)) = .ok segments) :
        Literal.slotsOf segments = (x :: xs).filter (fun x => (value x).isKind .embedded) ∧
          ∀ y ∈ x :: xs, (value y).isKind .string = true ∨ (value y).isKind .embedded = true := by
      obtain ⟨field, hvalue⟩ := Value.exists_of_isKind hkind
      obtain ⟨hslots, hkinds⟩ := ih h
      refine ⟨?_, List.forall_mem_cons.mpr ⟨.inl hkind, hkinds⟩⟩
      rw [hslots, List.filter_cons_of_neg]
      simp [hvalue, Value.isKind, Value.kind?]
    obtain ⟨hkind, ⟨text, hpart⟩ | ⟨typeName, hpart⟩⟩ | ⟨hkind, hpart⟩ | ⟨kind, hpart⟩ :=
      stringPart_cases value x
    · rw [hpart] at h
      exact hrun _ hkind h
    · rw [hpart] at h
      exact hrun _ hkind h
    · rw [hpart] at h
      obtain ⟨rest, hrest, hsegments⟩ := Literal.slotsOf_segmentsAfter_slot h
      obtain ⟨hslots, hkinds⟩ := ih hrest
      refine ⟨?_, List.forall_mem_cons.mpr ⟨.inr hkind, hkinds⟩⟩
      rw [hsegments, hslots, List.filter_cons_of_pos (by exact hkind)]
    · rw [hpart] at h
      cases h

end Rules
end TerseRuby
