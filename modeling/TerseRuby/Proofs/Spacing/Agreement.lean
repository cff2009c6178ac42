import TerseRuby.Proofs.Spacing.Blanks
import TerseRuby.Proofs.Spacing.Failures

/-!
# Writers that agree but for blanks

Two runs of the renderer are compared, one that leaves blanks open until the end and one that
settles them in every part of the tree.  `Writer.Agree P w w'` says that both fail with the same
failure, which no option changes, or both succeed, know the same local variables afterwards, and
return results that are related by `P`.  The lemmas say this of the operations that writers are
built from, so that a statement about a rule follows the text of the rule.

A rule looks at the first character of a text after a keyword, and so there has to be one.  That is
not true of all trees, but of those in which every node is *filled* (`Value.isFilled`): names are
not empty, and where an expression is expected there is no sequence of statements, which may have
no text.

* `Rendition.Agrees` relates the ways in which a value is written in both runs;
* `Rendition.Expresses` is the same for an expression, which has a text that is not empty;
* `PartsAgree` has all parts of a filled node.
-/

set_option autoImplicit false

namespace TerseRuby

/-! ## Writers -/

namespace Writer

variable {α α' β β' : Type}

/-- Two outcomes: the same failure, which no option changes, or related results with the same local
variables. -/
inductive OutcomesAgree (P : α → α' → Prop) :
    Except Fault (α × Locals) → Except Fault (α' × Locals) → Prop where
  /-- Both failed. -/
  | failed {fault : Fault} (h : fault.IsSettled) : OutcomesAgree P (.error fault) (.error fault)
  /-- Both succeeded. -/
  | done {a : α} {a' : α'} (locals : Locals) (h : P a a') :
      OutcomesAgree P (.ok (a, locals)) (.ok (a', locals))

/-- Two writers whose outcomes agree, in all settings and with all local variables. -/
def Agree (P : α → α' → Prop) (w : Writer α) (w' : Writer α') : Prop :=
  ∀ s locals, OutcomesAgree P ((w.run s).run locals) ((w'.run s).run locals)

variable {P : α → α' → Prop} {Q : β → β' → Prop} {w : Writer α} {w' : Writer α'}

theorem agree_pure {a : α} {a' : α'} (h : P a a') : Agree P (pure a) (pure a') :=
  fun _ locals => .done locals h

theorem agree_throw {fault : Fault} (h : fault.IsSettled) : Agree P (throw fault) (throw fault) :=
  fun _ _ => .failed h

theorem Agree.bind {k : α → Writer β} {k' : α' → Writer β'} (hw : Agree P w w')
    (hk : ∀ a a', P a a' → Agree Q (k a) (k' a')) : Agree Q (w >>= k) (w' >>= k') := by
  intro s locals
  rw [ReaderT.run_bind, StateT.run_bind, ReaderT.run_bind, StateT.run_bind]
  have hrun := hw s locals
  generalize (w.run s).run locals = out at hrun ⊢
  generalize (w'.run s).run locals = out' at hrun ⊢
  cases hrun with
  | failed h => exact .failed h
  | done locals h => exact hk _ _ h s locals

theorem Agree.map {f : α → β} {f' : α' → β'} (hw : Agree P w w')
    (hf : ∀ a a', P a a' → Q (f a) (f' a')) : Agree Q (f <$> w) (f' <$> w') := by
  rw [map_eq_pure_bind, map_eq_pure_bind]
  exact hw.bind fun a a' h => agree_pure (hf a a' h)

theorem Agree.mono {P' : α → α' → Prop} (hw : Agree P w w') (h : ∀ a a', P a a' → P' a a') :
    Agree P' w w' := by
  rw [← id_map w, ← id_map w']
  exact hw.map h

/-- A question about the tree, which has one answer in both runs. -/
theorem agree_ask {γ : Type} {e : Except Fault γ} (he : Settled e) {k : γ → Writer β}
    {k' : γ → Writer β'} (hk : ∀ a, e = .ok a → Agree Q (k a) (k' a)) :
    Agree Q ((liftM e : Writer γ) >>= k) ((liftM e : Writer γ) >>= k') := by
  cases e with
  | error fault => exact fun _ _ => .failed (he fault rfl)
  | ok a => exact hk a rfl

/-- What is found out from the tree is related to itself. -/
theorem agree_liftM {e : Except Fault α} {P : α → α → Prop} (he : Settled e)
    (h : ∀ a, e = .ok a → P a a) : Agree P (liftM e : Writer α) (liftM e : Writer α) := by
  rw [← bind_pure (liftM e)]
  exact agree_ask he fun a ha => agree_pure (h a ha)

theorem agree_read {k : Setting → Writer β} {k' : Setting → Writer β'}
    (hk : ∀ s, Agree Q (k s) (k' s)) : Agree Q (read >>= k) (read >>= k') :=
  fun s locals => hk s s locals

theorem agree_get {k : Locals → Writer β} {k' : Locals → Writer β'}
    (hk : ∀ locals, Agree Q (k locals) (k' locals)) : Agree Q (get >>= k) (get >>= k') :=
  fun s locals => hk locals s locals

theorem agree_declare (name : Value) {k : Unit → Writer β} {k' : Unit → Writer β'}
    (hk : Agree Q (k ()) (k' ())) : Agree Q (declare name >>= k) (declare name >>= k') := by
  have hdeclare : Agree (fun _ _ => True) (declare name) (declare name) :=
    agree_ask (Value.settled_checkKey name) fun _ _ _ locals => .done (name :: locals) trivial
  exact hdeclare.bind fun _ _ _ => hk

theorem Agree.withLocals (start : Locals → Locals) (hw : Agree P w w') :
    Agree P (withLocals start w) (withLocals start w') :=
  agree_get fun outer => Agree.bind (P := fun _ _ => True) (fun _ _ => .done (start outer) trivial)
    fun _ _ _ => hw.bind fun _ _ h => Agree.bind (P := fun _ _ => True)
      (fun _ _ => .done outer trivial) fun _ _ _ => agree_pure h

theorem Agree.withBraces (braces : Bool) (hw : Agree P w w') :
    Agree P (withBraces braces w) (withBraces braces w') :=
  fun s locals => hw { s with braceBlocks := braces } locals

theorem agree_mapM {γ δ : Type} {R : γ → δ → Prop} {f : γ → Writer α} {g : δ → Writer α'}
    (hfg : ∀ x y, R x y → Agree P (f x) (g y)) {xs : List γ} {ys : List δ}
    (h : List.Forall₂ R xs ys) :
    Agree (fun as as' => List.Forall₂ P as as' ∧ as.length = xs.length) (xs.mapM f)
      (ys.mapM g) := by
  induction h with
  | nil => exact agree_pure ⟨.nil, rfl⟩
  | cons hxy _ ih =>
    rw [List.mapM_cons, List.mapM_cons]
    exact (hfg _ _ hxy).bind fun _ _ hhead => ih.bind fun _ _ htail =>
      agree_pure ⟨.cons hhead htail.1, congrArg (· + 1) htail.2⟩

/-- Drafts that agree have texts that agree. -/
theorem Agree.built {b firm : Bool} {w w' : Writer Draft}
    (hw : Agree (Draft.Agrees b firm) w w') :
    Agree (Text.Agrees b firm) (built w) (built w') := by
  refine hw.bind fun d d' h => ?_
  obtain ⟨t, t', ht, ht', h⟩ := h
  rw [ht, ht']
  exact agree_pure h

end Writer

/-! ## Trees in which every node is filled -/

/-- What has to stand in a field, for the text of its node to have what the rules look for. -/
inductive Demand where
  /-- Anything. -/
  | anything
  /-- A text that is not empty. -/
  | name
  /-- A text, or nothing. -/
  | word
  /-- Something that is shown by a text. -/
  | numeral
  /-- No sequence of statements, and none among the elements. -/
  | expression
  /-- The same, and at least one element. -/
  | someExpressions
  /-- At least one element. -/
  | someElements
  deriving DecidableEq, Repr

/-- Whether nodes of a kind are parameters, which need no name. -/
def Kind.isParameter : Kind → Bool
  | .requiredParameter | .optionalParameter | .restParameter | .keywordParameter
  | .keywordRestParameter | .blockParameter => true
  | _ => false

/-- What has to stand in a field of a node of the given kind. -/
def Kind.demand (kind : Kind) : Field → Demand
  | .name => if kind.isParameter then .anything else .name
  | .reference | .operator | .text => .word
  | .value =>
    match kind with
    | .integer => .numeral
    | .float | .symbol => .anything
    | _ => .expression
  | .elements =>
    match kind with
    | .array => .expression
    | .keywordHash => .someElements
    | _ => .anything
  | .conditions => if kind == .whenClause then .someExpressions else .anything
  | .receiver | .constantPath | .superclass | .expression | .predicate | .collection | .exceptions
  | .arguments | .left | .right | .key | .parent | .target => .expression
  | _ => .anything

namespace Value

/-- Whether neither a value nor one of its elements is a sequence of statements. -/
def isExpression (v : Value) : Bool :=
  !v.isKind .statements && v.elements.all fun e => !e.isKind .statements

/-- Whether a value has an element, if it is made of elements. -/
def hasElements (v : Value) : Bool := !v.isCollection || !v.elements.isEmpty

/-- What counts as true has an element, if it is made of elements. -/
theorem hasElements_of_isTrue {v : Value} (h : v.isTrue = true) : v.hasElements = true := by
  cases v with
  | scalar s =>
    cases s with
    | str text => simpa [hasElements, isCollection, elements, isTrue, Scalar.isTrue] using h
    | _ => rfl
  | table entries => simpa [hasElements, isCollection, elements, isTrue] using h
  | seq items => simpa [hasElements, isCollection, elements, isTrue] using h
  | _ => rfl

end Value

/-- Whether a value meets a demand. -/
def Demand.isMet (v : Value) : Demand → Bool
  | .anything => true
  | .name => v.isName
  | .word => v.isWord
  | .numeral => v.display != ""
  | .expression => v.isExpression
  | .someExpressions => v.isExpression && v.hasElements
  | .someElements => v.hasElements

namespace Value

/-- Whether the fields of a node hold what they have to. -/
def isFilled : Value → Bool
  | .node kind field => kind.ownFields.all fun entry => (kind.demand entry.1).isMet (field entry.1)
  | _ => true

/-- Whether all nodes of a tree are filled. -/
def isFilledTree (v : Value) : Bool := v.preorder.all isFilled

theorem isFilled_of_not_isNode {v : Value} (h : v.isNode = false) : v.isFilled = true := by
  cases v with
  | node kind field => cases h
  | _ => rfl

theorem isFilled_of_isFilledTree {v : Value} (h : v.isFilledTree = true) : v.isFilled = true :=
  List.all_eq_true.mp h v List.mem_cons_self

theorem isFilledTree_field {kind : Kind} {field : Field → Value}
    (h : (Value.node kind field).isFilledTree = true) {f : Field}
    (hf : f ∈ kind.ownFields.map Prod.fst) : (field f).isFilledTree = true :=
  all_preorder_field (fun _ => isFilled_of_not_isNode) h hf

theorem isFilledTree_item {items : List Value} (h : (Value.seq items).isFilledTree = true)
    {v : Value} (hv : v ∈ items) (hnode : v.isNode = true) : v.isFilledTree = true :=
  all_preorder_item h hv hnode

/-- The field of a filled node holds what it has to. -/
theorem isMet_of_isFilled {kind : Kind} {field : Field → Value}
    (h : (Value.node kind field).isFilled = true) {f : Field}
    (hf : f ∈ kind.ownFields.map Prod.fst) : (kind.demand f).isMet (field f) = true := by
  obtain ⟨entry, hentry, rfl⟩ := List.mem_map.mp hf
  exact List.all_eq_true.mp h entry hentry

/-- Whether a value has a text in some role, if it is filled. -/
def isFirm (v : Value) : Role → Bool
  | .expression | .argument => !v.isKind .statements
  | .hashElement => true
  | _ => false

end Value

/-! ## Renditions -/

/-- A value is written in the same way, but for blanks. -/
structure Rendition.Agrees (b : Bool) (r r' : Rendition) : Prop where
  /-- It is the same value. -/
  value : r'.value = r.value
  /-- How it is written. -/
  write : ∀ role, r.value.fits role = true →
    Writer.Agree (Draft.Agrees b (r.value.isFirm role)) (r.write role) (r'.write role)
  /-- Its fields hold what they have to. -/
  filled : r.value.isFilled = true

/-- An expression is written in the same way, but for blanks. -/
structure Rendition.Expresses (b : Bool) (r r' : Rendition) : Prop extends r.Agrees b r' where
  /-- It is no sequence of statements. -/
  firm : r.value.isKind .statements = false

/-- What stands in a field is written in the same way, but for blanks. -/
structure FieldRendition.Agrees (b : Bool) (r r' : FieldRendition) : Prop where
  /-- The value. -/
  whole : r.toRendition.Agrees b r'.toRendition
  /-- The elements that it is made of. -/
  elements : List.Forall₂ (Rendition.Agrees b) r.elements r'.elements
  /-- They are those of the value. -/
  values : r.elements.map Rendition.value = r.value.elements

/-- An expression in a field, or expressions, are written in the same way, but for blanks. -/
structure FieldRendition.Expresses (b : Bool) (r r' : FieldRendition) : Prop where
  /-- The value. -/
  whole : r.toRendition.Expresses b r'.toRendition
  /-- The elements that it is made of. -/
  elements : List.Forall₂ (Rendition.Expresses b) r.elements r'.elements
  /-- They are those of the value. -/
  values : r.elements.map Rendition.value = r.value.elements

namespace Rendition

variable {b : Bool} {r r' : Rendition}

open Writer (Agree agree_pure agree_ask)

theorem Agrees.text (h : r.Agrees b r') (role : Role) (hfits : r.value.fits role = true) :
    Agree (Text.Agrees b (r.value.isFirm role)) (r.text role) (r'.text role) :=
  (h.write role hfits).built

namespace Expresses

theorem expression (h : r.Expresses b r') :
    Agree (Text.Agrees b true) (r.text .expression) (r'.text .expression) := by
  have htext := h.text .expression rfl
  rwa [Value.isFirm, h.firm] at htext

theorem argument (h : r.Expresses b r') :
    Agree (Text.Agrees b true) (r.text .argument) (r'.text .argument) := by
  have htext := h.text .argument rfl
  rwa [Value.isFirm, h.firm] at htext

theorem operand (h : r.Expresses b r') (parent : Operator) (side : Side) :
    Agree (Text.Agrees b true) (r.operand parent side) (r'.operand parent side) := by
  refine h.expression.bind fun _ _ ht => ?_
  rw [h.value]
  exact agree_ask (Value.settled_operator? _) fun _ _ => agree_pure (ht.grouped _)

theorem memberOperand (h : r.Expresses b r') :
    Agree (Text.Agrees b true) r.memberOperand r'.memberOperand := by
  refine h.expression.bind fun _ _ ht => ?_
  rw [h.value]
  exact agree_ask (Value.settled_operator? _) fun _ _ => agree_pure (ht.grouped _)

theorem assignedValue (h : r.Expresses b r') :
    Agree (Draft.Agrees b true) r.assignedValue r'.assignedValue :=
  (h.operand _ _).bind fun _ _ ht => agree_pure (Draft.Agrees.assigned ht)

end Expresses
end Rendition

namespace FieldRendition

variable {b : Bool} {r r' : FieldRendition}

open Writer (Agree agree_pure agree_throw)

/-- What stands in the place of expressions, if no sequence of statements does. -/
theorem Agrees.expresses (h : r.Agrees b r') (hvalue : r.value.isExpression = true) :
    r.Expresses b r' := by
  rw [Value.isExpression, Bool.and_eq_true, Bool.not_eq_true', List.all_eq_true] at hvalue
  refine ⟨⟨h.whole, hvalue.1⟩, ?_, h.values⟩
  have hfirm : ∀ x ∈ r.elements, x.value.isKind .statements = false := by
    intro x hx
    have hmem : x.value ∈ r.value.elements := by
      rw [← h.values]
      exact List.mem_map_of_mem hx
    simpa using hvalue.2 x.value hmem
  exact ((List.forall₂_and_left _ _).mpr ⟨hfirm, h.elements⟩).imp
    fun _ _ hxy => ⟨hxy.2, hxy.1⟩

/-- Something is written if the field is present. -/
theorem agree_ifPresent {α α' : Type} (hvalue : r'.value = r.value)
    {P : List α → List α' → Prop} (hnil : P [] []) {w : Writer (List α)} {w' : Writer (List α')}
    (hw : Agree P w w') : Agree P (r.ifPresent w) (r'.ifPresent w') := by
  rw [ifPresent, ifPresent, hvalue]
  split
  · exact agree_pure hnil
  · exact hw

/-- Going through the elements of a field. -/
theorem agree_sequence {β β' : Type} (hvalue : r'.value = r.value) {Q : β → β' → Prop}
    {k : List Rendition → Writer β} {k' : List Rendition → Writer β'}
    (hk : r.value.isCollection = true → Agree Q (k r.elements) (k' r'.elements)) :
    Agree Q (r.sequence >>= k) (r'.sequence >>= k') := by
  rw [sequence, sequence, hvalue]
  split
  · exact hk ‹_›
  · exact agree_throw fun _ => rfl

theorem Expresses.toAgrees (h : r.Expresses b r') : r.Agrees b r' :=
  ⟨h.whole.toAgrees, h.elements.imp fun _ _ hxy => hxy.toAgrees, h.values⟩

/-- There are elements, if there have to be some. -/
theorem Agrees.elements_ne_nil (h : r.Agrees b r')
    (hcollection : r.value.isCollection = true) (hvalue : r.value.hasElements = true) :
    r.elements ≠ [] := by
  intro hnil
  rw [Value.hasElements, hcollection, ← h.values, hnil] at hvalue
  cases hvalue

end FieldRendition

/-- All parts of a filled node are written in the same way, but for blanks. -/
structure PartsAgree (b : Bool) (v : Value) (c c' : Field → FieldRendition) : Prop where
  /-- The values of the fields. -/
  before : ∀ f, (c f).value = v.field f
  /-- The values of the fields, in the second run. -/
  after : ∀ f, (c' f).value = v.field f
  /-- How they are written. -/
  part : ∀ kind, v.kind? = some kind → ∀ f, kind.owns f = true → (c f).Agrees b (c' f)
  /-- The node is filled. -/
  filled : v.isFilled = true

namespace PartsAgree

variable {b : Bool} {v : Value} {c c' : Field → FieldRendition}

theorem value (h : PartsAgree b v c c') (f : Field) : (c' f).value = (c f).value := by
  rw [h.before, h.after]

/-- A field holds what it has to. -/
theorem isMet (h : PartsAgree b v c c') {kind : Kind} (hkind : v.kind? = some kind)
    (f : Field) (hown : kind.owns f = true) : (kind.demand f).isMet (c f).value = true := by
  obtain ⟨field, rfl⟩ := Value.exists_of_kind? hkind
  rw [h.before]
  exact Value.isMet_of_isFilled h.filled (Kind.mem_ownFields_of_owns hown)

/-- A field that has to hold an expression. -/
theorem expression (h : PartsAgree b v c c') {kind : Kind} (hkind : v.kind? = some kind)
    {f : Field} (hown : kind.owns f = true) (hdemand : kind.demand f = .expression) :
    (c f).Expresses b (c' f) := by
  have hmet := h.isMet hkind f hown
  rw [hdemand] at hmet
  exact (h.part kind hkind f hown).expresses hmet

end PartsAgree
end TerseRuby
