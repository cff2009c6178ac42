import TerseRuby.Proofs.Locals.Entering
import TerseRuby.Proofs.Tree.Shape

/-!
# Variables that operands, arguments and literals enter

`Rendition.Enters` says that a value, written in any role it can play, enters the names that it
declares in that role.  For each rule of the renderer there is a lemma `enters_…`: if the parts of a
node enter what they declare, then so does the node.  Here are the rules for operands, arguments,
parameters and literals; the other rules follow in `Proofs/Locals/Rules.lean`.
-/

set_option autoImplicit false

namespace TerseRuby

open Writer (Enters enters_pure enters_throw enters_lift enters_lift_bind enters_read_bind
  enters_query_bind enters_declare enters_mapM enters_ite)

/-! ## Renditions -/

/-- The value enters what it declares, in every role that it can be asked to play. -/
def Rendition.Enters (asked : Value → Prop) (r : Rendition) : Prop :=
  ∀ role, r.value.fits role = true → Writer.Enters asked (r.write role) (r.value.declaredAs role)

/-- So do the value of a field and the elements that it is made of. -/
structure FieldRendition.Enters (asked : Value → Prop) (r : FieldRendition) : Prop where
  /-- The value. -/
  whole : r.toRendition.Enters asked
  /-- The elements. -/
  each : ∀ e ∈ r.elements, e.Enters asked
  /-- The elements are those of the value. -/
  values : r.elements.map Rendition.value = r.value.elements

/-- The parts of a value enter what they declare, and a call without receiver may ask about its
name. -/
structure PartsEnter (asked : Value → Prop) (v : Value) (c : Field → FieldRendition) :
    Prop where
  /-- The renditions are those of the fields. -/
  values : ∀ f, (c f).value = v.field f
  /-- The fields that a node has, its location apart, enter what they declare. -/
  enters : ∀ f, v.kind?.any (·.owns f) = true → (c f).Enters asked
  /-- The name of a call without receiver. -/
  asks : v.isBareCall = true → asked (v.field .name)

variable {asked : Value → Prop} {c : Field → FieldRendition}

namespace Rendition

variable {r : Rendition}

theorem Enters.expression (h : r.Enters asked) :
    Writer.Enters asked (r.text .expression) r.value.declared :=
  (h .expression rfl).built

theorem Enters.operand (h : r.Enters asked) (parent : Operator) (side : Side) :
    Writer.Enters asked (r.operand parent side) r.value.declared :=
  h.expression.bind_nil fun _ => (enters_lift _).nil_bind fun _ => enters_pure _

theorem Enters.memberOperand (h : r.Enters asked) :
    Writer.Enters asked r.memberOperand r.value.declared :=
  h.expression.bind_nil fun _ => (enters_lift _).nil_bind fun _ => enters_pure _

theorem Enters.assignedValue (h : r.Enters asked) :
    Writer.Enters asked r.assignedValue r.value.declared :=
  (h.operand _ _).bind_nil fun _ => enters_pure _

end Rendition

namespace FieldRendition

variable {r : FieldRendition} {α : Type} {names : List Value}

/-- A field that is absent declares nothing. -/
theorem enters_ifPresent {w : Writer (List α)} (h : Writer.Enters asked w names)
    (hnull : r.value.isNull = true → names = []) : Writer.Enters asked (r.ifPresent w) names := by
  refine enters_ite (fun hr => ?_) fun _ => h
  rw [hnull hr]
  exact enters_pure []

theorem enters_ifPresent_declared {w : Writer (List α)}
    (h : Writer.Enters asked w r.value.declared) :
    Writer.Enters asked (r.ifPresent w) r.value.declared :=
  enters_ifPresent h Value.declared_of_isNull

theorem enters_sequence_bind {f : List Rendition → Writer α}
    (h : r.value.isCollection = true → Writer.Enters asked (f r.elements) names) :
    Writer.Enters asked (r.sequence >>= f) names := by
  rw [sequence]
  split
  · exact h ‹_›
  · exact enters_throw _

/-- The elements one after the other, in a role in which each declares what the given function
says. -/
theorem Enters.mapM (h : r.Enters asked) {g : Value → List Value}
    {f : Rendition → Writer α}
    (hf : ∀ e : Rendition, e.Enters asked → Writer.Enters asked (f e) (g e.value)) :
    Writer.Enters asked (r.elements.mapM f) (r.value.elements.flatMap g) := by
  rw [← h.values, List.flatMap_map]
  exact enters_mapM fun e he => hf e (h.each e he)

end FieldRendition

namespace Rules

open FieldRendition (enters_ifPresent enters_ifPresent_declared enters_sequence_bind)

/-! ## Operands and operators -/

theorem enters_logical (hleft : (c .left).Enters asked) (hright : (c .right).Enters asked)
    (op : Operator) (asWord : Bool) :
    Writer.Enters asked (logical c op asWord)
      ((c .left).value.declared ++ (c .right).value.declared) :=
  (hleft.whole.operand _ _).bind fun _ => (hright.whole.operand _ _).bind_nil fun _ =>
    enters_ite (fun _ => enters_pure _) fun _ => enters_pure _

theorem enters_negation (h : (c .expression).Enters asked) :
    Writer.Enters asked (negation c) (c .expression).value.declared :=
  (h.whole.operand _ _).bind_nil fun _ => enters_pure _

theorem enters_range (hleft : (c .left).Enters asked) (hright : (c .right).Enters asked) :
    Writer.Enters asked (range c) ((c .left).value.declared ++ (c .right).value.declared) :=
  (enters_ifPresent_declared (hleft.whole.operand _ _)).bind fun _ =>
    (enters_ifPresent_declared (hright.whole.operand _ _)).bind_nil fun _ => enters_pure _

theorem enters_assignment (h : (c .value).Enters asked) :
    Writer.Enters asked (assignment c) (c .value).value.declared :=
  h.whole.assignedValue.bind_nil fun _ => enters_pure _

theorem enters_localAssignment (h : (c .value).Enters asked) :
    Writer.Enters asked (localAssignment c) ([(c .name).value] ++ (c .value).value.declared) :=
  (enters_declare _).bind fun _ => enters_assignment h

theorem enters_compoundAssignment (htarget : (c .target).Enters asked)
    (hvalue : (c .value).Enters asked) :
    Writer.Enters asked (compoundAssignment c)
      ((if (c .target).value.isKind .localRead then [(c .target).value.field .name] else []) ++
        ((c .target).value.declared ++ (c .value).value.declared)) := by
  have hrest (name : Writer Unit) (names : List Value) (hname : Writer.Enters asked name names) :
      Writer.Enters asked (name >>= fun _ => do
        let text ← (c .target).text .expression
        if text.isEmpty then throw .emptyText
        let gap := if text.endsWith Text.isNameMark then Draft.lit " " else []
        let value ← (c .value).operand .assign .right
        return Draft.of text ++ gap ++ Draft.word (c .operator).value ++ Draft.of value)
        (names ++ ((c .target).value.declared ++ (c .value).value.declared)) :=
    hname.bind fun _ => htarget.whole.expression.bind fun _ =>
      enters_ite (fun _ => enters_throw _) fun _ =>
        (hvalue.whole.operand _ _).bind_nil fun _ => enters_pure _
  rw [compoundAssignment]
  by_cases hlocal : (c .target).value.isKind .localRead = true
  · simp only [hlocal, if_true]
    exact hrest _ _ (enters_declare _)
  · simp only [hlocal]
    exact hrest (pure ()) [] (enters_pure ())

theorem enters_constantPath (h : (c .parent).Enters asked) :
    Writer.Enters asked (constantPath c) (c .parent).value.declared :=
  (enters_ifPresent_declared h.whole.memberOperand).bind_nil fun _ => enters_pure _

/-! ## Arguments, elements and parameters -/

theorem enters_require (self : Value) (f : Field) : Writer.Enters asked (require self f) [] :=
  enters_ite (fun _ => enters_pure _) fun _ => enters_throw _

/-- After a field was asked for, the value has it. -/
theorem enters_require_bind {self : Value} {f : Field} {α : Type} {w : Unit → Writer α}
    {names : List Value}
    (h : self.kind?.any (·.has f) = true → Writer.Enters asked (w ()) names) :
    Writer.Enters asked (require self f >>= w) names := by
  rw [require]
  split
  · exact h ‹_›
  · exact enters_throw _

/-- The arguments of a call, and a block argument after them. -/
theorem enters_arguments {r : FieldRendition} (hr : r.Enters asked)
    (hcollection : r.value.isCollection = true) {block : Option Rendition}
    (hblock : ∀ b ∈ block, b.Enters asked) :
    Writer.Enters asked (arguments r.elements block)
      (r.value.declared ++ block.toList.flatMap (·.value.declared)) := by
  have hitems : ∀ e ∈ r.elements ++ block.toList, e.Enters asked := by
    intro e he
    rcases List.mem_append.mp he with he | he
    · exact hr.each e he
    · exact hblock e (Option.mem_toList.mp he)
  have hnames : r.value.declared = r.elements.flatMap (·.value.declared) := by
    rw [← Value.flatMap_declared_elements hcollection, ← hr.values, List.flatMap_map]
  rw [hnames, ← List.flatMap_append]
  exact (enters_mapM fun e he => (hitems e he .argument rfl).built).bind_nil fun _ => enters_pure _

/-- The arguments in a field, without a block argument. -/
theorem enters_argumentsOf {r : FieldRendition} (hr : r.Enters asked) :
    Writer.Enters asked (do arguments (← r.sequence) none) r.value.declared :=
  enters_sequence_bind fun hcollection => by
    have hnone : ∀ b ∈ (none : Option Rendition), b.Enters asked := by simp
    simpa using enters_arguments hr hcollection hnone

theorem enters_argumentsOf_bind {r : FieldRendition} (hr : r.Enters asked) {α : Type}
    {f : Text → Writer α} {names : List Value} (hf : ∀ list, Writer.Enters asked (f list) names) :
    Writer.Enters asked (do
      let items ← r.sequence
      let list ← arguments items none
      f list) (r.value.declared ++ names) := by
  rw [← bind_assoc]
  exact (enters_argumentsOf hr).bind hf

theorem enters_of_blockArgument? {r : FieldRendition} (hr : r.Enters asked) :
    ∀ b ∈ blockArgument? r, b.Enters asked := by
  intro b hb
  rw [blockArgument?] at hb
  split at hb
  · cases hb
    exact hr.whole
  · exact absurd hb (Option.not_mem_none b)

/-- The block argument of a call declares what stands in the place of the block. -/
theorem flatMap_blockArgument? (r : FieldRendition) :
    (blockArgument? r).toList.flatMap (·.value.declared) = r.value.declaredInArgument := by
  rw [blockArgument?]
  split
  · rename_i hkind
    rcases hvalue : r.value with _ | _ | _ | _ | ⟨kind, field⟩ <;>
      simp only [hvalue, Value.isKind, Value.kind?, beq_iff_eq, Option.some.injEq,
        reduceCtorEq] at hkind
    subst hkind
    simp [hvalue, Value.declared, Value.declaredInArgument]
  · rename_i hkind
    rcases hvalue : r.value with _ | _ | _ | _ | ⟨kind, field⟩
    case node => cases kind <;> first | rfl | simp [hvalue, Value.isKind, Value.kind?] at hkind
    all_goals rfl

theorem enters_hashElements {r : FieldRendition} (hr : r.Enters asked) :
    Writer.Enters asked (hashElements r) r.value.declared :=
  enters_sequence_bind fun hcollection => by
    rw [← Value.flatMap_declared_elements hcollection]
    exact (hr.mapM fun e he => (he .hashElement rfl).built).bind_nil fun _ => enters_pure _

theorem enters_spread {r : FieldRendition} (hr : r.Enters asked) (stars : String) :
    Writer.Enters asked (spread stars r) r.value.declared :=
  (enters_ifPresent_declared hr.whole.memberOperand).bind_nil fun _ => enters_pure _

/-- A symbol that can be written as a label declares nothing, so it does not matter that it is not
written as a key. -/
theorem declared_of_keyLabel? {key : Value} {label : Text} (h : keyLabel? key = .ok (some label)) :
    key.declared = [] := by
  unfold keyLabel? at h
  split at h
  · rfl
  · simp at h

theorem enters_pair (hkey : (c .key).Enters asked) (hvalue : (c .value).Enters asked) :
    Writer.Enters asked (pair c) ((c .key).value.declared ++ (c .value).value.declared) := by
  refine enters_lift_bind fun label hlabel => ?_
  cases label with
  | some label =>
    rw [declared_of_keyLabel? hlabel]
    exact (hvalue.whole .argument rfl).built.bind_nil fun _ => enters_pure _
  | none =>
    exact (hkey.whole .argument rfl).built.bind fun _ =>
      (hvalue.whole .argument rfl).built.bind_nil fun _ => enters_pure _

theorem enters_parameter (self : Value) (sign : String)
    (hname : (c .name).value = self.field .name) :
    Writer.Enters asked (parameter self c sign) self.parameterNames := by
  rw [Value.parameterNames, ← hname, parameter]
  refine (enters_require self .name).nil_bind fun _ => ?_
  refine enters_ite (fun hname => ?_) fun hname => ?_
  · rw [if_neg (by simpa using hname)]
    exact enters_pure _
  · rw [if_pos (by simpa using hname)]
    refine (enters_declare (c .name).value).bind_nil fun _ => ?_
    split
    · exact enters_pure _
    · exact enters_throw _

theorem enters_optionalParameter (self : Value) (hname : (c .name).value = self.field .name)
    (hfield : (c .value).value = self.field .value)
    (hvalue : self.kind?.any (·.has .value) = true → (c .value).Enters asked) :
    Writer.Enters asked (optionalParameter self c) self.defaultNames := by
  rw [Value.defaultNames, ← hname, ← hfield]
  exact (enters_require self .name).nil_bind fun _ => (enters_declare _).bind fun _ =>
    enters_require_bind fun hhas =>
      ((hvalue hhas).whole .argument rfl).built.bind_nil fun _ =>
        enters_lift_bind fun _ _ => enters_pure _

theorem enters_keywordParameter (self : Value) (hname : (c .name).value = self.field .name)
    (hfield : (c .value).value = self.field .value)
    (hvalue : self.kind?.any (·.has .value) = true → (c .value).Enters asked) :
    Writer.Enters asked (keywordParameter self c) self.defaultNames := by
  rw [Value.defaultNames, ← hname, ← hfield]
  refine (enters_require self .name).nil_bind fun _ => (enters_declare _).bind fun _ =>
    enters_lift_bind fun _ _ => enters_require_bind fun hhas => enters_ite (fun hnull => ?_)
      fun _ => ((hvalue hhas).whole .argument rfl).built.bind_nil fun _ => enters_pure _
  rw [Value.declared_of_isNull hnull]
  exact enters_pure _

theorem enters_parameterGroup {r : FieldRendition} (hr : r.Enters asked) (role : Role)
    {names : Value → List Value}
    (hnames : ∀ v : Value, v.fits role = true ∧ v.declaredAs role = names v) :
    Writer.Enters asked (parameterGroup r role) (r.value.elements.flatMap names) := by
  refine enters_sequence_bind fun _ => hr.mapM fun e he => ?_
  rw [← (hnames e.value).2]
  exact (he role (hnames e.value).1).built

theorem enters_singleParameter {r : FieldRendition} (hr : r.Enters asked) (sign : String) :
    Writer.Enters asked (singleParameter r sign) r.value.parameterNames := by
  refine enters_ifPresent ((hr.whole (.parameter sign) rfl).built.bind_nil fun _ => enters_pure _)
    fun hnull => ?_
  rw [Value.eq_null_of_isNull hnull]
  rfl

theorem enters_parameters (self : Value) (hfield : ∀ f, (c f).value = self.field f)
    (h : ∀ f, self.kind?.any (·.owns f) = true → (c f).Enters asked) :
    Writer.Enters asked (parameters self c) self.parameterListNames := by
  refine enters_require_bind fun hhas => ?_
  obtain ⟨kind, hkind, hhas⟩ := (Option.any_eq_true _ _).mp hhas
  obtain rfl := Kind.eq_of_has_requireds hhas
  rw [hkind] at h
  have hparts (f : Field) (hown : Kind.parameters.owns f = true) : (c f).Enters asked := h f hown
  simp only [Value.parameterListNames, ← hfield]
  exact (enters_parameterGroup (hparts _ rfl) _ fun v => ⟨rfl, rfl⟩).bind fun _ =>
    (enters_parameterGroup (hparts _ rfl) _ fun v => ⟨rfl, rfl⟩).bind fun _ =>
    (enters_singleParameter (hparts _ rfl) _).bind fun _ =>
    (enters_parameterGroup (hparts _ rfl) _ fun v => ⟨rfl, rfl⟩).bind fun _ =>
    (enters_parameterGroup (hparts _ rfl) _ fun v => ⟨rfl, rfl⟩).bind fun _ =>
    (enters_singleParameter (hparts _ rfl) _).bind fun _ =>
    (enters_singleParameter (hparts _ rfl) _).bind_nil fun _ => enters_pure _

/-- A parameter list in the field of a definition or block, if there is one. -/
theorem enters_parameterText {r : FieldRendition} (hr : r.Enters asked) :
    Writer.Enters asked (r.ifPresent (r.text .parameters)) r.value.parameterListNames := by
  refine enters_ifPresent (hr.whole .parameters rfl).built fun hnull => ?_
  rw [Value.eq_null_of_isNull hnull]
  rfl

/-! ## Literals -/

open Literal (Segment slotsOf)

theorem enters_spliceSegments {segments : List (Segment Rendition)}
    (h : ∀ r ∈ slotsOf segments, Writer.Enters asked (r.text .slot) r.value.declaredInStatements) :
    Writer.Enters asked
      (Literal.spliceSegments Text.ofChars (fun slot : Rendition => slot.text .slot) segments)
      ((slotsOf segments).flatMap (·.value.declaredInStatements)) := by
  induction segments with
  | nil => exact enters_pure _
  | cons segment rest ih =>
    cases segment with
    | run text => exact (ih h).bind_nil fun _ => enters_pure _
    | slot r =>
      obtain ⟨hslot, hrest⟩ := List.forall_mem_cons.mp h
      exact hslot.bind fun _ => (ih hrest).bind_nil fun _ => enters_pure _

theorem declared_of_isKind_string {v : Value} (h : v.isKind .string = true) : v.declared = [] := by
  obtain ⟨field, rfl⟩ := Value.exists_of_isKind h
  rfl

theorem declared_of_isKind_embedded {v : Value} (h : v.isKind .embedded = true) :
    v.declared = v.declaredInStatements := by
  obtain ⟨field, rfl⟩ := Value.exists_of_isKind h
  simp [Value.declared, Value.declaredInStatements]

theorem enters_interpolated (h : (c .parts).Enters asked) :
    Writer.Enters asked (interpolated c) (c .parts).value.declared := by
  refine enters_sequence_bind fun hcollection => enters_lift_bind fun segments hsegments => ?_
  obtain ⟨hslots, hkinds⟩ := slotsOf_segmentsAfter hsegments
  rw [← Value.flatMap_declared_elements hcollection, ← h.values, List.flatMap_map]
  refine Enters.congr (Enters.bind_nil (Enters.bind_nil (enters_spliceSegments fun r hr => ?_)
    fun _ => enters_pure _) fun _ => enters_pure _) fun n => ?_
  · rw [hslots, List.mem_filter] at hr
    exact (h.each r hr.1 .slot hr.2).built
  · -- the runs declare nothing
    simp only [hslots, List.mem_flatMap, List.mem_filter]
    constructor
    · rintro ⟨r, ⟨hr, hkind⟩, hn⟩
      exact ⟨r, hr, by rwa [declared_of_isKind_embedded hkind]⟩
    · rintro ⟨r, hr, hn⟩
      rcases hkinds r hr with hkind | hkind
      · rw [declared_of_isKind_string hkind] at hn
        exact absurd hn List.not_mem_nil
      · exact ⟨r, ⟨hr, hkind⟩, by rwa [← declared_of_isKind_embedded hkind]⟩

theorem enters_array (h : (c .elements).Enters asked) :
    Writer.Enters asked (array c) (c .elements).value.declared := by
  rw [array, ← List.append_nil (c .elements).value.declared]
  exact enters_argumentsOf_bind h fun _ => enters_pure _

theorem enters_hash (h : (c .elements).Enters asked) :
    Writer.Enters asked (hash c) (c .elements).value.declared :=
  (enters_hashElements h).bind_nil fun _ => enters_pure _

end Rules
end TerseRuby
