import TerseRuby.Proofs.Rendering.Outcome

/-!
# Conditions at the end of a line

A conditional may be written with its condition at the end, and then its statement is read before
the condition is.  A variable that the condition declares would not be known to the statement, so
the rules ask for a condition without assignments to local variables.

What they look for is the plain assignment, `x=1`.  A compound one declares its variable as well,
and is missed.  The main result here says that nothing else is: whatever the condition declares, it
declares by a compound assignment to a local variable, and where there is none the variables known
after the condition are those known before.

This is an invariant of writing.  The rules that can be met in such a condition are gone through
once, and each of them keeps the variables within given ones if its parts do (`PartsKeep`).
-/

set_option autoImplicit false

namespace TerseRuby

/-! ## Writers that keep an invariant -/

/-- Every run that succeeds keeps the invariant of the variables. -/
def Writer.Keeps {α : Type} (inv : Locals → Prop) (w : Writer α) : Prop :=
  w.Ensures inv fun _ => True

namespace Writer

variable {α β : Type} {inv : Locals → Prop}

theorem Ensures.keeps {w : Writer α} {Q : α → Prop} (h : w.Ensures inv Q) : w.Keeps inv :=
  h.imp fun _ _ => trivial

theorem keeps_pure (a : α) : (pure a : Writer α).Keeps inv := ensures_pure trivial

theorem keeps_throw (fault : Fault) : (throw fault : Writer α).Keeps inv := ensures_throw fault

theorem keeps_lift (e : Except Fault α) : (liftM e : Writer α).Keeps inv :=
  ensures_lift fun _ _ => trivial

theorem Keeps.bind {w : Writer α} {f : α → Writer β} (hw : w.Keeps inv)
    (hf : ∀ a, (f a).Keeps inv) : (w >>= f).Keeps inv :=
  Ensures.bind hw fun a _ => hf a

theorem Keeps.map {w : Writer α} (hw : w.Keeps inv) (f : α → β) : (f <$> w).Keeps inv :=
  Ensures.map hw fun _ _ => trivial

theorem Keeps.built {w : Writer Draft} (hw : w.Keeps inv) : w.built.Keeps inv :=
  Ensures.built hw fun _ _ _ _ => trivial

theorem keeps_mapM {γ : Type} {xs : List γ} {f : γ → Writer α}
    (h : ∀ x ∈ xs, (f x).Keeps inv) : (xs.mapM f).Keeps inv :=
  (ensures_mapM h).keeps

theorem keeps_ite {p : Prop} [Decidable p] {w w' : Writer α} (h : w.Keeps inv)
    (h' : w'.Keeps inv) : (if p then w else w').Keeps inv :=
  ensures_ite (fun _ => h) fun _ => h'

/-- What is written in a scope of its own keeps any invariant. -/
theorem keeps_withLocals (start : Locals → Locals) (w : Writer α) :
    (withLocals start w).Keeps inv :=
  Ensures.withLocals (fun _ => True) (fun _ _ => trivial)
    fun _ _ _ _ _ _ => ⟨trivial, trivial⟩

end Writer

open Writer (Keeps keeps_pure keeps_throw keeps_lift keeps_mapM keeps_ite keeps_withLocals
  ensures_read ensures_get ensures_declare)

/-! ## Renditions -/

/-- The roles that are played in a condition at the end of a line. -/
def Role.isInline : Role → Bool
  | .expression | .statement | .body _ | .argument | .hashElement | .slot | .block => true
  | _ => false

/-- The value keeps the invariant, in every role that it can play in a condition. -/
def Rendition.Keeps (inv : Locals → Prop) (r : Rendition) : Prop :=
  ∀ role, role.isInline = true → r.value.fits role = true → (r.write role).Keeps inv

/-- So do the value of a field and the elements that it is made of. -/
structure FieldRendition.Keeps (inv : Locals → Prop) (r : FieldRendition) : Prop where
  /-- The value. -/
  whole : r.toRendition.Keeps inv
  /-- The elements. -/
  each : ∀ e ∈ r.elements, e.Keeps inv

/-- The parts of a value keep the invariant, and the value is none that would break it by itself:
neither a construct with an `end` nor a plain assignment to a local variable, and the variable of a
compound assignment may be entered. -/
structure PartsKeep (inv : Locals → Prop) (v : Value) (c : Field → FieldRendition) : Prop where
  /-- The fields that a node has, its location apart. -/
  parts : ∀ f, v.kind?.any (·.owns f) = true → (c f).Keeps inv
  /-- The value is no construct with an `end`. -/
  not_closed : v.inGroup Kind.closesWithEnd = false
  /-- The value is no plain assignment to a local variable. -/
  not_write : v.isKind .localWrite = false
  /-- The variable of a compound assignment. -/
  compound : v.isKind .operatorWrite = true → (c .target).value.isKind .localRead = true →
    ∀ l, inv l → inv ((c .target).value.field .name :: l)

variable {inv : Locals → Prop} {c : Field → FieldRendition} {v : Value}

theorem PartsKeep.part (h : PartsKeep inv v c) {kind : Kind} (hkind : v.kind? = some kind)
    {f : Field} (hf : kind.owns f = true) : (c f).Keeps inv :=
  h.parts f (by rw [hkind]; exact hf)

namespace Rendition

variable {r : Rendition}

theorem Keeps.text (h : r.Keeps inv) {role : Role} (hrole : role.isInline = true)
    (hfits : r.value.fits role = true) : (r.text role).Keeps inv :=
  (h role hrole hfits).built

theorem Keeps.operand (h : r.Keeps inv) (parent : Operator) (side : Side) :
    (r.operand parent side).Keeps inv :=
  (h.text rfl rfl).bind fun _ => (keeps_lift _).bind fun _ => keeps_pure _

theorem Keeps.memberOperand (h : r.Keeps inv) : r.memberOperand.Keeps inv :=
  (h.text rfl rfl).bind fun _ => (keeps_lift _).bind fun _ => keeps_pure _

theorem Keeps.assignedValue (h : r.Keeps inv) : r.assignedValue.Keeps inv :=
  (h.operand _ _).bind fun _ => keeps_pure _

end Rendition

namespace FieldRendition

variable {r : FieldRendition} {α : Type}

theorem keeps_ifPresent {w : Writer (List α)} (h : w.Keeps inv) : (r.ifPresent w).Keeps inv :=
  keeps_ite (keeps_pure _) h

theorem Keeps.sequence_bind (h : r.Keeps inv) {f : List Rendition → Writer α}
    (hf : ∀ items, (∀ e ∈ items, e.Keeps inv) → (f items).Keeps inv) :
    (r.sequence >>= f).Keeps inv :=
  ensures_sequence.bind fun items hitems => hf items (hitems ▸ h.each)

end FieldRendition

namespace Rules

open FieldRendition (keeps_ifPresent)

/-! ## Operands and arguments -/

theorem keeps_logical (hleft : (c .left).Keeps inv) (hright : (c .right).Keeps inv)
    (op : Operator) (asWord : Bool) : (logical c op asWord).Keeps inv :=
  (hleft.whole.operand _ _).bind fun _ => (hright.whole.operand _ _).bind fun _ =>
    keeps_ite (keeps_pure _) (keeps_pure _)

theorem keeps_negation (h : (c .expression).Keeps inv) : (negation c).Keeps inv :=
  (h.whole.operand _ _).bind fun _ => keeps_pure _

theorem keeps_range (hleft : (c .left).Keeps inv) (hright : (c .right).Keeps inv) :
    (range c).Keeps inv :=
  (keeps_ifPresent (hleft.whole.operand _ _)).bind fun _ =>
    (keeps_ifPresent (hright.whole.operand _ _)).bind fun _ => keeps_pure _

theorem keeps_assignment (h : (c .value).Keeps inv) : (assignment c).Keeps inv :=
  h.whole.assignedValue.bind fun _ => keeps_pure _

theorem keeps_compoundAssignment (htarget : (c .target).Keeps inv) (hvalue : (c .value).Keeps inv)
    (hname : (c .target).value.isKind .localRead = true →
      ∀ l, inv l → inv ((c .target).value.field .name :: l)) :
    (compoundAssignment c).Keeps inv := by
  have hrest (declaration : Writer Unit) (h : declaration.Keeps inv) :
      (declaration >>= fun _ => do
        let text ← (c .target).text .expression
        if text.isEmpty then throw .emptyText
        let gap := if text.endsWith Text.isNameMark then Draft.lit " " else []
        let value ← (c .value).operand .assign .right
        return Draft.of text ++ gap ++ Draft.word (c .operator).value ++ Draft.of value :
          Writer Draft).Keeps inv :=
    h.bind fun _ => (htarget.whole.text rfl rfl).bind fun _ =>
      keeps_ite (keeps_throw _) ((hvalue.whole.operand _ _).bind fun _ => keeps_pure _)
  rw [compoundAssignment]
  by_cases hlocal : (c .target).value.isKind .localRead = true
  · simp only [hlocal, if_true]
    exact hrest _ (ensures_declare (hname hlocal))
  · simp only [hlocal]
    exact hrest (pure ()) (keeps_pure ())

theorem keeps_constantPath (h : (c .parent).Keeps inv) : (constantPath c).Keeps inv :=
  (keeps_ifPresent h.whole.memberOperand).bind fun _ => keeps_pure _

theorem keeps_arguments {items : List Rendition} (hitems : ∀ e ∈ items, e.Keeps inv)
    {block? : Option Rendition} (hblock : ∀ e ∈ block?, e.Keeps inv) :
    (arguments items block?).Keeps inv := by
  refine (keeps_mapM fun e he => ?_).bind fun _ => keeps_pure _
  rcases List.mem_append.mp he with he | he
  · exact (hitems e he).text rfl rfl
  · exact (hblock e (Option.mem_toList.mp he)).text rfl rfl

theorem keeps_argumentSequence {r : FieldRendition} (h : r.Keeps inv) {block? : Option Rendition}
    (hblock : ∀ e ∈ block?, e.Keeps inv) :
    (r.sequence >>= fun items => arguments items block?).Keeps inv :=
  h.sequence_bind fun _ hitems => keeps_arguments hitems hblock

theorem keeps_of_mem_blockArgument? {r : FieldRendition} (h : r.Keeps inv) :
    ∀ e ∈ blockArgument? r, e.Keeps inv := by
  intro e he
  rw [blockArgument?] at he
  split at he
  · rw [Option.mem_some_iff] at he
    exact he ▸ h.whole
  · cases he

theorem not_mem_none : ∀ e ∈ (none : Option Rendition), e.Keeps inv := by
  intro e he
  cases he

theorem keeps_hashElements {r : FieldRendition} (h : r.Keeps inv) : (hashElements r).Keeps inv :=
  h.sequence_bind fun _ hitems =>
    (keeps_mapM fun e he => (hitems e he).text rfl rfl).bind fun _ => keeps_pure _

theorem keeps_spread {r : FieldRendition} (h : r.Keeps inv) (stars : String) :
    (spread stars r).Keeps inv :=
  (keeps_ifPresent h.whole.memberOperand).bind fun _ => keeps_pure _

theorem keeps_pair (hkey : (c .key).Keeps inv) (hvalue : (c .value).Keeps inv) :
    (pair c).Keeps inv := by
  refine (keeps_lift _).bind fun label? => ?_
  cases label? with
  | some label => exact (hvalue.whole.text rfl rfl).bind fun _ => keeps_pure _
  | none =>
    exact (hkey.whole.text rfl rfl).bind fun _ => (hvalue.whole.text rfl rfl).bind fun _ =>
      keeps_pure _

theorem keeps_hashElement (h : PartsKeep inv v c) : (hashElement v c).Keeps inv := by
  unfold hashElement
  split
  · rename_i hkind
    exact keeps_pair (h.part hkind rfl) (h.part hkind rfl)
  · rename_i hkind
    exact keeps_spread (h.part hkind rfl) _
  · exact keeps_throw _

theorem keeps_argument (h : PartsKeep inv v c) {asExpression : Writer Draft}
    (hexpression : asExpression.Keeps inv) : (argument v c asExpression).Keeps inv := by
  unfold argument
  split
  · rename_i hkind
    exact keeps_spread (h.part hkind rfl) _
  · rename_i hkind
    exact keeps_spread (h.part hkind rfl) _
  · exact keeps_hashElement h
  · rename_i hkind
    exact keeps_hashElements (h.part hkind rfl)
  · exact hexpression.built.bind fun _ => (keeps_lift _).bind fun _ => keeps_pure _

/-! ## Literals -/

theorem keeps_spliceSegments {segments : List (Literal.Segment Rendition)}
    (h : ∀ e ∈ Literal.slotsOf segments, (e.text .slot).Keeps inv) :
    (Literal.spliceSegments Text.ofChars (fun slot : Rendition => slot.text .slot)
      segments : Writer Text).Keeps inv := by
  induction segments with
  | nil => exact keeps_pure _
  | cons segment rest ih =>
    cases segment with
    | run text => exact (ih h).bind fun _ => keeps_pure _
    | slot content =>
      rw [Literal.slotsOf, List.forall_mem_cons] at h
      exact h.1.bind fun _ => (ih h.2).bind fun _ => keeps_pure _

theorem keeps_interpolated (h : (c .parts).Keeps inv) : (interpolated c).Keeps inv := by
  refine h.sequence_bind fun items hitems => ?_
  have hsegments : ((liftM (Literal.segments (items.map (stringPart Rendition.value))) :
      Writer (List (Literal.Segment Rendition))).Ensures inv
        fun segments => ∀ e ∈ Literal.slotsOf segments, (e.text .slot).Keeps inv) := by
    refine Writer.ensures_lift fun segments hsegments => ?_
    rw [(slotsOf_segmentsAfter hsegments).1]
    intro e he
    obtain ⟨he, hslot⟩ := List.mem_filter.mp he
    exact (hitems e he).text rfl hslot
  refine hsegments.bind fun segments hslots => ?_
  refine Keeps.bind ?_ fun _ => keeps_pure _
  exact (keeps_spliceSegments hslots).bind fun _ => keeps_pure _

/-! ## Calls -/

theorem keeps_attachedBlock {r : FieldRendition} (h : r.Keeps inv) : (attachedBlock r).Keeps inv :=
  Writer.ensures_ite (h.whole .block rfl) fun _ => keeps_pure _

theorem keeps_unaryCall (h : (c .receiver).Keeps inv) (op : Operator) :
    (unaryCall c op).Keeps inv := by
  refine (h.whole.operand _ _).bind fun operand => ?_
  split
  · exact keeps_ite (keeps_throw _) (keeps_pure _)
  · exact keeps_pure _
  · exact keeps_pure _

theorem keeps_argumentList (harguments : (c .arguments).Keeps inv) (hblock : (c .block).Keeps inv) :
    (argumentList c).Keeps inv := by
  unfold argumentList
  refine keeps_ite ?_ (keeps_ite (keeps_pure _) ?_)
  · exact harguments.sequence_bind fun _ hitems =>
      (keeps_arguments hitems (keeps_of_mem_blockArgument? hblock)).bind fun _ => keeps_pure _
  · exact ensures_read.keeps.bind fun _ => ensures_get.keeps.bind fun _ =>
      (keeps_lift _).bind fun _ => keeps_ite (keeps_pure _) (keeps_pure _)

theorem keeps_plainCall (hreceiver : (c .receiver).Keeps inv)
    (harguments : (c .arguments).Keeps inv) (hblock : (c .block).Keeps inv) :
    (plainCall c).Keeps inv :=
  (keeps_ifPresent (hreceiver.whole.memberOperand.bind fun _ => keeps_pure _)).bind fun _ =>
    (keeps_argumentList harguments hblock).bind fun _ =>
      (keeps_attachedBlock hblock).bind fun _ => keeps_pure _

theorem keeps_call (hreceiver : (c .receiver).Keeps inv) (harguments : (c .arguments).Keeps inv)
    (hblock : (c .block).Keeps inv) : (call c).Keeps inv := by
  have hitems := harguments.each
  refine (keeps_lift _).bind fun shape => ?_
  split
  · exact keeps_unaryCall hreceiver _
  · rename_i argument _ _ hlist
    rw [hlist] at hitems
    exact (hreceiver.whole.operand _ _).bind fun _ =>
      ((hitems _ List.mem_cons_self).operand _ _).bind fun _ => keeps_pure _
  · rename_i value hlast
    refine hreceiver.whole.memberOperand.bind fun _ => ?_
    refine (keeps_arguments (fun e he => hitems e ((List.dropLast_subset _) he))
      not_mem_none).bind fun _ => ?_
    exact (hitems value (List.mem_of_getLast? hlast)).assignedValue.bind fun _ => keeps_pure _
  · rename_i value _ _ hlist
    rw [hlist] at hitems
    exact hreceiver.whole.memberOperand.bind fun _ =>
      (hitems _ List.mem_cons_self).assignedValue.bind fun _ => keeps_pure _
  · exact hreceiver.whole.memberOperand.bind fun _ =>
      harguments.sequence_bind fun _ hitems =>
        (keeps_arguments hitems (keeps_of_mem_blockArgument? hblock)).bind fun _ => keeps_pure _
  · exact keeps_plainCall hreceiver harguments hblock

theorem keeps_superCall (harguments : (c .arguments).Keeps inv) (hblock : (c .block).Keeps inv) :
    (superCall c).Keeps inv := by
  have hpassed := keeps_of_mem_blockArgument? hblock
  have hend (list : Draft) : (do
      let block ← attachedBlock (c .block)
      return Draft.lit "super" ++ list ++ block).Keeps inv :=
    (keeps_attachedBlock hblock).bind fun _ => keeps_pure _
  unfold superCall
  dsimp only
  split
  · exact harguments.sequence_bind fun _ hitems =>
      (keeps_arguments hitems hpassed).bind fun _ => hend _
  · rename_i block _ hsome
    exact ((hpassed block hsome).text rfl rfl).bind fun _ => hend _
  · exact hend _

theorem keeps_yieldCall (h : (c .arguments).Keeps inv) : (yieldCall c).Keeps inv :=
  keeps_ite (h.sequence_bind fun _ hitems =>
    (keeps_arguments hitems not_mem_none).bind fun _ => keeps_pure _) (keeps_pure _)

theorem keeps_jump (h : (c .arguments).Keeps inv) (keyword : String) : (jump keyword c).Keeps inv :=
  keeps_ite ((Writer.Ensures.withBraces (keeps_argumentSequence h not_mem_none) true).keeps.bind
    fun _ => keeps_pure _) (keeps_pure _)

/-! ## Statements -/

theorem keeps_writeFrom (file : Bool) (state : SeparatorState) {xs : List Sequence.Statement}
    (h : ∀ x ∈ xs, x.write.Keeps inv) : (Sequence.writeFrom file state xs).Keeps inv := by
  induction xs generalizing state with
  | nil => exact keeps_pure _
  | cons x xs ih =>
    rw [List.forall_mem_cons] at h
    have hone : (Sequence.writeOne (file && xs.isEmpty) x).Keeps inv := by
      unfold Sequence.writeOne
      split
      · exact keeps_pure _
      · exact keeps_pure _
      · exact h.1
    exact hone.bind fun _ => (ih _ h.2).bind fun _ => keeps_pure _

theorem keeps_write (file : Bool) {xs : List Sequence.Statement}
    (h : ∀ x ∈ xs, x.write.Keeps inv) : (Sequence.write file xs).Keeps inv :=
  ensures_read.keeps.bind fun s => keeps_writeFrom file .start fun x hx =>
    h x (Sequence.kept_subset s file _ xs hx)

theorem keeps_sequenceOf (file : Bool) {r : FieldRendition} (h : r.Keeps inv) :
    (sequenceOf file r).Keeps inv := by
  refine h.sequence_bind fun items hitems => keeps_write file fun x hx => ?_
  obtain ⟨e, he, rfl⟩ := List.mem_map.mp hx
  exact hitems e he .statement rfl rfl

/-! ## All inline roles -/

theorem keeps_expression (h : PartsKeep inv v c) : (expression v c).Keeps inv := by
  cases v with
  | node kind field =>
    have part (f : Field) (hown : kind.owns f = true) : (c f).Keeps inv := h.parts f hown
    have hclosed : kind.closesWithEnd = false := h.not_closed
    cases kind
    case methodDef | classDef | singletonClass | moduleDef | ifThen | unlessThen | caseOf
        | whileLoop | untilLoop | forLoop | beginBlock => cases hclosed
    case call => exact keeps_call (part .receiver rfl) (part .arguments rfl) (part .block rfl)
    case logicalAnd | logicalOr =>
      exact keeps_ite (keeps_logical (part .left rfl) (part .right rfl) _ _)
        (keeps_logical (part .left rfl) (part .right rfl) _ _)
    case logicalNot => exact keeps_negation (part .expression rfl)
    case returnJump | breakJump | nextJump => exact keeps_jump (part .arguments rfl) _
    case yieldCall => exact keeps_yieldCall (part .arguments rfl)
    case superCall => exact keeps_superCall (part .arguments rfl) (part .block rfl)
    case interpolated => exact keeps_interpolated (part .parts rfl)
    case array =>
      exact (part .elements rfl).sequence_bind fun _ hitems =>
        (keeps_arguments hitems not_mem_none).bind fun _ => keeps_pure _
    case hash => exact (keeps_hashElements (part .elements rfl)).bind fun _ => keeps_pure _
    case range => exact keeps_range (part .left rfl) (part .right rfl)
    case parentheses => exact ((part .body rfl).whole _ rfl rfl).bind fun _ => keeps_pure _
    case statements => exact keeps_sequenceOf false (part .body rfl)
    case localWrite => cases h.not_write
    case instanceWrite | globalWrite | constantWrite => exact keeps_assignment (part .value rfl)
    case constantPath => exact keeps_constantPath (part .parent rfl)
    case operatorWrite =>
      exact keeps_compoundAssignment (part .target rfl) (part .value rfl) (h.compound rfl)
    -- the other kinds are leaves, or no expressions
    all_goals first | exact keeps_pure _ | exact keeps_lift _ | exact keeps_throw _
  | _ => exact keeps_throw _

theorem keeps_plainStatement (h : PartsKeep inv v c) : (plainStatement v c).Keeps inv :=
  (keeps_lift _).bind fun _ =>
    keeps_ite ((keeps_expression h).built.bind fun _ => keeps_pure _) (keeps_expression h)

theorem keeps_statement (h : PartsKeep inv v c) : (statement v c).Keeps inv := by
  have hclosed {kind : Kind} (hkind : v.kind? = some kind) : kind.closesWithEnd = false := by
    have hnot := h.not_closed
    rwa [Value.inGroup, hkind] at hnot
  unfold statement
  split
  · rename_i hkind
    cases hclosed hkind
  · rename_i hkind
    cases hclosed hkind
  · rename_i hkind
    refine ensures_read.keeps.bind fun _ => ensures_get.keeps.bind fun _ =>
      (keeps_lift _).bind fun _ => ?_
    split
    · rename_i hitems
      have hargument := (h.part (f := .arguments) hkind rfl).each
      rw [hitems, List.forall_mem_cons] at hargument
      exact (hargument.1.text rfl rfl).bind fun _ => keeps_pure _
    · exact keeps_plainStatement h
  · exact keeps_plainStatement h

theorem keeps_body (file : Bool) (h : PartsKeep inv v c) : (body file v c).Keeps inv := by
  unfold body
  refine keeps_ite (keeps_pure _) (Writer.ensures_ite (fun hkind => ?_) fun _ => ?_)
  · exact keeps_sequenceOf file (h.part (eq_of_beq hkind) rfl)
  · exact keeps_write file (List.forall_mem_singleton.mpr (keeps_statement h))

/-- **The rules keep the invariant if the parts do**, in every role that is played in a condition
at the end of a line. -/
theorem keeps_write_of_parts (h : PartsKeep inv v c) {role : Role} (hrole : role.isInline = true)
    (hfits : v.fits role = true) : (write v c role).Keeps inv := by
  cases role with
  | expression => exact keeps_expression h
  | statement => exact keeps_statement h
  | body file => exact keeps_body file h
  | argument => exact (keeps_argument h (keeps_expression h)).map _
  | hashElement => exact (keeps_hashElement h).map _
  | slot => exact (h.part (f := .statements) (eq_of_beq hfits) rfl).whole _ rfl rfl
  | block => exact keeps_withLocals _ _
  | _ => cases hrole

end Rules

/-! ## Trees -/

namespace Value

/-- Whether a value is a compound assignment to a local variable. -/
def isCompoundLocal : Value → Bool
  | .node .operatorWrite field => (field .target).isKind .localRead
  | _ => false

/-- The names of the local variables that a tree has compound assignments to. -/
def compoundNames (v : Value) : List Value :=
  (v.preorder.filter isCompoundLocal).map fun d => (d.field .target).field .name

/-- A node that keeps the invariant if its parts do. -/
structure IsKeeper (inv : Locals → Prop) (v : Value) : Prop where
  /-- It is no construct with an `end`. -/
  not_closed : v.inGroup Kind.closesWithEnd = false
  /-- It is no plain assignment to a local variable. -/
  not_write : v.isKind .localWrite = false
  /-- The variable of a compound assignment may be entered. -/
  compound : v.isCompoundLocal = true →
    ∀ l, inv l → inv ((v.field .target).field .name :: l)

/-- What is no node has no parts. -/
theorem keeps_leafRendition {v : Value} (h : v.isNode = false) :
    v.leafRendition.Keeps inv := by
  intro role hrole hfits
  have hkind : v.kind? = none := by
    cases v with
    | node kind field => cases h
    | _ => rfl
  refine Rules.keeps_write_of_parts ⟨?_, ?_, ?_, ?_⟩ hrole hfits
  · simp [hkind]
  · simp [inGroup, hkind]
  · simp [isKind, hkind]
  · simp [isKind, hkind]

/-- What is no node keeps the invariant if those of its elements do that are nodes. -/
theorem keeps_of_elements {v : Value} (hleaf : v.isNode = false)
    (h : ∀ e ∈ v.elements, e.isNode = true → e.rendition.toRendition.Keeps inv) :
    v.rendition.Keeps inv := by
  refine ⟨?_, fun e he => ?_⟩
  · rw [toRendition_of_not_isNode hleaf]
    exact keeps_leafRendition hleaf
  · rw [rendition_elements_eq] at he
    obtain ⟨item, hitem, rfl⟩ := List.mem_map.mp he
    cases hnode : item.isNode
    · rw [toRendition_of_not_isNode hnode]
      exact keeps_leafRendition hnode
    · exact h item hitem hnode

/-- **A tree whose nodes keep the invariant keeps it.** -/
theorem keeps_rendition {v : Value} (h : ∀ d ∈ v.preorder, d.isNode = true → IsKeeper inv d) :
    v.rendition.Keeps inv := by
  induction v using Value.induction with
  | seq items ih =>
    refine keeps_of_elements rfl fun e he hnode => (ih e he fun d hd => ?_).whole
    exact h d (mem_preorder_of_item he hnode hd)
  | node kind field ih =>
    have hself := h _ List.mem_cons_self rfl
    refine ⟨fun role hrole hfits => ?_, List.forall_mem_nil _⟩
    refine Rules.keeps_write_of_parts ⟨fun f hown => ih f fun d hd hnode => ?_, hself.not_closed,
      hself.not_write, fun hkind hlocal => ?_⟩ hrole hfits
    · exact h d (mem_preorder_of_field (Kind.mem_ownFields_of_owns hown) hd hnode) hnode
    · obtain ⟨_, heq⟩ := exists_of_isKind hkind
      cases heq
      rw [rendition_value] at hlocal ⊢
      exact hself.compound hlocal
  -- what is neither a sequence nor a node has no nodes in it
  | _ =>
    refine keeps_of_elements rfl fun e he hnode => ?_
    obtain ⟨items, hitems, _⟩ := exists_items_of_mem_elements he hnode
    cases hitems

/-- A tree without block constructs and plain assignments to local variables keeps every invariant
that the variables of its compound assignments may be entered under. -/
theorem keeps_of_compoundNames {v : Value} (hblock : v.containsBlock = false)
    (hassigns : v.assignsLocal = false)
    (hnames : ∀ n ∈ v.compoundNames, ∀ l, inv l → inv (n :: l)) : v.rendition.Keeps inv := by
  refine keeps_rendition fun d hd _ => ⟨?_, ?_, fun hcompound => ?_⟩
  · have hnone := List.any_eq_false.mp hblock d hd
    rw [Bool.eq_false_iff]
    intro hclosed
    obtain ⟨kind, hkind, hclosed⟩ := (Option.any_eq_true _ _).mp hclosed
    exact hnone ((Option.any_eq_true _ _).mpr ⟨kind, hkind, by rw [hclosed, Bool.true_or]⟩)
  · exact Bool.eq_false_iff.mpr (List.any_eq_false.mp hassigns d hd)
  · exact hnames _ (List.mem_map.mpr ⟨d, List.mem_filter.mpr ⟨hd, hcompound⟩, rfl⟩)

end Value

/-! ## Conditionals -/

namespace Rules

/-- What was found out about the condition of a conditional that is written with it at the end. -/
theorem predicate_of_isPostfix {s : Setting} {field : Field → Value}
    (h : isPostfix s field = .ok true) :
    (field .predicate).containsBlock = false ∧ (field .predicate).assignsLocal = false := by
  rw [isPostfix] at h
  split at h
  · cases h
  obtain ⟨statement?, -, h⟩ := exists_of_bind_eq_ok h
  cases statement? with
  | none => cases h
  | some statement =>
    obtain ⟨inStatement, -, h⟩ := exists_of_bind_eq_ok h
    split at h
    · cases h
    obtain ⟨inPredicate, hblock, h⟩ := exists_of_bind_eq_ok h
    split at h
    · cases h
    · rename_i hnone
      rw [checkBlock] at hblock
      split at hblock
      · cases hblock
        have hassigns := Except.ok.inj h
        exact ⟨Bool.not_eq_true _ ▸ hnone, by simpa using hassigns⟩
      · cases hblock

/-- **A condition at the end of a line declares variables by compound assignments only.**  If a
conditional is written that way, under any setting and whatever variables are known, then all that
the condition adds to them are names of local variables that it has compound assignments to.  If it
has none, then the variables known after it are those known before. -/
theorem locals_after_predicate (s : Setting) (field : Field → Value)
    (hchosen : isPostfix s field = .ok true) {l l' : Locals} {d : Draft}
    (h : (((field .predicate).rendition.write .expression).run s).run l = .ok (d, l')) :
    (∀ n ∈ l', n ∈ l ∨ n ∈ (field .predicate).compoundNames) ∧
      ((field .predicate).compoundNames = [] → l' = l) := by
  obtain ⟨hblock, hassigns⟩ := predicate_of_isPostfix hchosen
  have hkeeps (inv : Locals → Prop)
      (hnames : ∀ n ∈ (field .predicate).compoundNames, ∀ l, inv l → inv (n :: l))
      (hl : inv l) : inv l' := by
    have hwritten := (Value.keeps_of_compoundNames hblock hassigns hnames).whole .expression rfl rfl
    exact (hwritten s l d l' hl h).1
  constructor
  · refine hkeeps (fun m => ∀ n ∈ m, n ∈ l ∨ n ∈ (field .predicate).compoundNames)
      (fun n hn m hm => ?_) fun n hn => .inl hn
    exact List.forall_mem_cons.mpr ⟨.inr hn, hm⟩
  · intro hnone
    refine hkeeps (· = l) (fun n hn => ?_) rfl
    rw [hnone] at hn
    cases hn

/-- A conditional whose condition gives an instance variable a value, and whose statement reads
it. -/
def memoized : Value :=
  .ofFields .ifThen
    [(.predicate, .ofFields .operatorWrite
      [(.target, .ofFields .instanceRead [(.name, .scalar (.str "@x"))]),
        (.operator, .scalar (.str "||=")), (.value, .ofFields .nilLiteral [])]),
      (.statements, .ofFields .instanceRead [(.name, .scalar (.str "@x"))])]

theorem locals_after_predicate_memoized :
    ∃ d l', (((memoized.field .predicate).rendition.write .expression).run
        (Setting.ofOptions .default)).run [.null] = .ok (d, l') ∧ l' = [.null] := by
  refine ⟨_, _, rfl, ?_⟩
  exact (locals_after_predicate (Setting.ofOptions .default) memoized.field (by decide) rfl).2
    (by decide)

/-- A conditional whose condition gives a local variable a value, and whose statement reads it. -/
def defaulted : Value :=
  .ofFields .ifThen
    [(.predicate, .ofFields .operatorWrite
      [(.target, .ofFields .localRead [(.name, .scalar (.str "x"))]),
        (.operator, .scalar (.str "||=")),
        (.value, .ofFields .integer [(.value, .scalar (.int 1))])]),
      (.statements, .ofFields .localRead [(.name, .scalar (.str "x"))])]

/-- Its condition is written at the end, although it declares the variable. -/
theorem isPostfix_defaulted :
    isPostfix (Setting.ofOptions .default) defaulted.field = .ok true ∧
      (∃ d, (((defaulted.field .predicate).rendition.write .expression).run
        (Setting.ofOptions .default)).run [] = .ok (d, [.scalar (.str "x")])) ∧
      render .default defaulted = .ok "x if x||=1" := by
  refine ⟨rfl, ⟨_, rfl⟩, ?_⟩
  decide

end Rules
end TerseRuby
