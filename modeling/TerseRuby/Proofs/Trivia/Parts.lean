import TerseRuby.Proofs.Rendering.Punctuation
import TerseRuby.Proofs.Trivia.Erasure

/-!
# Operands, arguments and literals after erasure

A writer that drops comments and blank lines is `Writer.stripped`.  For each rule of the renderer
there is a lemma `…_strips`: if the parts of a node are written after erasure, under any setting, as
they were written before where comments and blank lines are dropped, then so is the node.

The relation between a part and what it becomes depends on its place.  `Rendition.Strips` is the one
for trees, `FieldRendition.StripsBody` the one for bodies, `FieldRendition.StripsStatements` the one
for the statements of a sequence, and `PartsStrip` has all parts of a node.

Here are the rules for operands, arguments, parameters and literals; the other rules follow in
`Proofs/Trivia/Rules.lean`.
-/

set_option autoImplicit false

namespace TerseRuby

/-! ## Writers that drop comments and blank lines -/

namespace Writer

variable {α β : Type}

/-- The writer, where comments and blank lines are dropped. -/
def stripped (w : Writer α) : Writer α := withReader Setting.stripped w

@[simp] theorem stripped_pure (a : α) : stripped (pure a) = pure a := rfl

@[simp] theorem stripped_throw (fault : Fault) : stripped (throw fault : Writer α) = throw fault :=
  rfl

@[simp] theorem stripped_bind (w : Writer α) (f : α → Writer β) :
    stripped (w >>= f) = stripped w >>= fun a => stripped (f a) := rfl

@[simp] theorem stripped_map (w : Writer α) (f : α → β) : stripped (f <$> w) = f <$> stripped w :=
  rfl

@[simp] theorem stripped_ite (p : Prop) [Decidable p] (w w' : Writer α) :
    stripped (if p then w else w') = if p then stripped w else stripped w' :=
  apply_ite stripped p w w'

@[simp] theorem stripped_liftM (e : Except Fault α) :
    stripped (liftM e : Writer α) = liftM e := rfl

@[simp] theorem stripped_read : stripped (read : Writer Setting) = Setting.stripped <$> read := rfl

@[simp] theorem stripped_get : stripped (get : Writer Locals) = get := rfl

@[simp] theorem stripped_declare (name : Value) : stripped (declare name) = declare name := rfl

@[simp] theorem stripped_withLocals (start : Locals → Locals) (w : Writer α) :
    stripped (withLocals start w) = withLocals start (stripped w) := rfl

@[simp] theorem stripped_withBraces (braces : Bool) (w : Writer α) :
    stripped (withBraces braces w) = withBraces braces (stripped w) := rfl

@[simp] theorem stripped_built (w : Writer Draft) : stripped (built w) = built (stripped w) := rfl

/-- What comes after an answer only has to agree for that answer. -/
theorem liftM_bind_congr {e : Except Fault α} {f g : α → Writer β}
    (h : ∀ a, e = .ok a → f a = g a) : (liftM e : Writer α) >>= f = (liftM e : Writer α) >>= g := by
  cases e with
  | error fault => rfl
  | ok a => exact h a rfl

/-- Writers one after the other, each of which is another one stripped. -/
theorem mapM_stripped {γ δ : Type} {R : γ → δ → Prop} {f : γ → Writer α} {g : δ → Writer α}
    (hfg : ∀ x y, R x y → g y = stripped (f x)) {xs : List γ} {ys : List δ}
    (h : List.Forall₂ R xs ys) : ys.mapM g = stripped (xs.mapM f) := by
  induction h with
  | nil => rfl
  | cons hxy _ ih => simp [List.mapM_cons, hfg _ _ hxy, ih]

end Writer

/-! ## Renditions -/

/-- Whether a value that is erased can be asked to play a role: a comment or blank line is no body
any more, and a slot and a block are written only where the kind was looked at before. -/
def Value.plays (v : Value) : Role → Bool
  | .body _ => !v.inGroup Kind.isTrivia
  | .slot => v.isKind .embedded
  | .block => v.isKind .block
  | _ => true

/-- The second rendition is that of the first after erasure. -/
structure Rendition.Strips (r r' : Rendition) : Prop where
  /-- The value after erasure. -/
  value : r'.value = r.value.erase
  /-- How it is written. -/
  write : ∀ role, r.value.plays role = true → r'.write role = (r.write role).stripped

/-- The second field has a tree, or some trees, and the first what they were before erasure. -/
structure FieldRendition.Strips (r r' : FieldRendition) : Prop where
  /-- The value. -/
  whole : r.toRendition.Strips r'.toRendition
  /-- The elements that it is made of. -/
  elements : List.Forall₂ Rendition.Strips r.elements r'.elements

/-- The second field has the statements of a sequence, and the first what they were before
erasure. -/
structure FieldRendition.StripsStatements (r r' : FieldRendition) : Prop where
  /-- The value after erasure. -/
  value : r'.value = r.value.erase.withoutTrivia
  /-- The statements that are left. -/
  elements : List.Forall₂ Rendition.Strips (Sequence.proper Rendition.value r.elements) r'.elements

/-- The second field has a body, and the first what it was before erasure. -/
structure FieldRendition.StripsBody (r r' : FieldRendition) : Prop where
  /-- The value after erasure. -/
  value : r'.value = r.value.erase.asBody
  /-- How it is written. -/
  write : ∀ file, r'.write (.body file) = (r.write (.body file)).stripped

namespace Rendition.Strips

variable {r r' : Rendition} (h : r.Strips r')
include h

theorem isKind (kind : Kind) : r'.value.isKind kind = r.value.isKind kind := by
  rw [h.value, Value.isKind_erase]

theorem isNull : r'.value.isNull = r.value.isNull := by
  rw [h.value, Value.isNull_erase]

theorem isTrue : r'.value.isTrue = r.value.isTrue := by
  rw [h.value, Value.isTrue_erase]

theorem text (role : Role) (hrole : r.value.plays role = true) :
    r'.text role = (r.text role).stripped := by
  rw [Rendition.text, Rendition.text, h.write role hrole, Writer.stripped_built]

theorem expression : r'.text .expression = (r.text .expression).stripped := h.text _ rfl

theorem argument : r'.text .argument = (r.text .argument).stripped := h.text _ rfl

theorem operand (parent : Operator) (side : Side) :
    r'.operand parent side = (r.operand parent side).stripped := by
  simp [Rendition.operand, h.expression, h.value]

theorem memberOperand : r'.memberOperand = r.memberOperand.stripped := by
  simp [Rendition.memberOperand, h.expression, h.value]

theorem assignedValue : r'.assignedValue = r.assignedValue.stripped := by
  simp [Rendition.assignedValue, h.operand]

end Rendition.Strips

namespace FieldRendition.Strips

variable {r r' : FieldRendition} (h : r.Strips r')
include h

theorem ifPresent {α : Type} {w w' : Writer (List α)} (hw : w' = w.stripped) :
    r'.ifPresent w' = (r.ifPresent w).stripped := by
  rw [FieldRendition.ifPresent, FieldRendition.ifPresent, h.whole.isNull, hw]
  split <;> rfl

/-- Going through the elements. -/
theorem sequence_bind {α : Type} {f g : List Rendition → Writer α}
    (hfg : g r'.elements = (f r.elements).stripped) :
    r'.sequence >>= g = (r.sequence >>= f).stripped := by
  rw [FieldRendition.sequence, FieldRendition.sequence, h.whole.value, Value.isCollection_erase,
    Value.typeName_erase]
  split
  · exact hfg
  · rfl

end FieldRendition.Strips

/-- The second row has the parts of a value, and the first what they were before erasure. -/
structure PartsStrip (v : Value) (c c' : Field → FieldRendition) : Prop where
  /-- The values before erasure. -/
  before : ∀ f, (c f).value = v.field f
  /-- The values after erasure. -/
  after : ∀ f, (c' f).value = v.erase.field f
  /-- The fields that hold trees. -/
  part : ∀ kind, v.kind? = some kind → ∀ f, kind.has f = true → kind.place f = .part →
    (c f).Strips (c' f)
  /-- The fields that hold bodies. -/
  body : ∀ kind, v.kind? = some kind → ∀ f, kind.has f = true → kind.place f = .body →
    (c f).StripsBody (c' f)
  /-- The statements of a sequence. -/
  statements : v.isKind .statements = true → (c .body).StripsStatements (c' .body)
  /-- The comments in a node are leaves. -/
  comments : v.isNode = true → v.hasLeafComments = true

/-- A field that holds data in every kind of node. -/
theorem PartsStrip.data {v : Value} {c c' : Field → FieldRendition} (h : PartsStrip v c c')
    {f : Field} (hplace : ∀ kind : Kind, kind.place f = .data) : (c' f).value = (c f).value := by
  rw [h.before, h.after]
  cases v with
  | node kind field => exact congrArg (Place.settle · (field f) (field f).erase) (hplace kind)
  | _ => rfl

variable {c c' : Field → FieldRendition}

namespace Rules

/-! ## Operands and operators -/

theorem logical_strips (hleft : (c .left).Strips (c' .left))
    (hright : (c .right).Strips (c' .right)) (op : Operator) (asWord : Bool) :
    logical c' op asWord = (logical c op asWord).stripped := by
  simp [logical, hleft.whole.operand, hright.whole.operand, hleft.whole.isKind]

theorem negation_strips (h : (c .expression).Strips (c' .expression)) :
    negation c' = (negation c).stripped := by
  simp [negation, h.whole.operand]

theorem range_strips (hleft : (c .left).Strips (c' .left)) (hright : (c .right).Strips (c' .right))
    (hexclusive : (c' .exclusive).value = (c .exclusive).value) :
    range c' = (range c).stripped := by
  simp [range, hexclusive, hleft.ifPresent (hleft.whole.operand _ _),
    hright.ifPresent (hright.whole.operand _ _), hleft.whole.isNull, hright.whole.isNull]

theorem assignment_strips (hname : (c' .name).value = (c .name).value)
    (hvalue : (c .value).Strips (c' .value)) : assignment c' = (assignment c).stripped := by
  simp [assignment, hname, hvalue.whole.assignedValue]

theorem localAssignment_strips (hname : (c' .name).value = (c .name).value)
    (hvalue : (c .value).Strips (c' .value)) :
    localAssignment c' = (localAssignment c).stripped := by
  simp [localAssignment, hname, assignment_strips hname hvalue]

theorem compoundAssignment_strips (htarget : (c .target).Strips (c' .target))
    (hoperator : (c' .operator).value = (c .operator).value)
    (hvalue : (c .value).Strips (c' .value)) :
    compoundAssignment c' = (compoundAssignment c).stripped := by
  have hname : (c' .target).value.field .name = (c .target).value.field .name := by
    rw [htarget.whole.value]
    cases (c .target).value <;> rfl
  simp [compoundAssignment, htarget.whole.isKind, hname, htarget.whole.expression, hoperator,
    hvalue.whole.operand]

theorem constantPath_strips (hparent : (c .parent).Strips (c' .parent))
    (hname : (c' .name).value = (c .name).value) :
    constantPath c' = (constantPath c).stripped := by
  simp [constantPath, hparent.ifPresent hparent.whole.memberOperand, hname]

/-! ## Arguments, elements and parameters -/

theorem arguments_strips {items items' : List Rendition} {block block' : Option Rendition}
    (hitems : List.Forall₂ Rendition.Strips items items')
    (hblock : List.Forall₂ Rendition.Strips block.toList block'.toList) :
    arguments items' block' = (arguments items block).stripped := by
  rw [arguments, arguments, Writer.stripped_bind,
    Writer.mapM_stripped (fun _ _ h => h.argument) (List.rel_append hitems hblock)]
  rfl

theorem arguments_none_strips {items items' : List Rendition}
    (hitems : List.Forall₂ Rendition.Strips items items') :
    arguments items' none = (arguments items none).stripped :=
  arguments_strips hitems .nil

theorem argumentsOf_strips {r r' : FieldRendition} (h : r.Strips r') :
    (do arguments (← r'.sequence) none) = Writer.stripped (do arguments (← r.sequence) none) :=
  h.sequence_bind (arguments_none_strips h.elements)

theorem blockArgument?_strips {r r' : FieldRendition} (h : r.Strips r') :
    List.Forall₂ Rendition.Strips (blockArgument? r).toList (blockArgument? r').toList := by
  rw [blockArgument?, blockArgument?, h.whole.isKind]
  split
  · exact .cons h.whole .nil
  · exact .nil

theorem hashElements_strips {r r' : FieldRendition} (h : r.Strips r') :
    hashElements r' = (hashElements r).stripped := by
  refine h.sequence_bind ?_
  rw [Writer.mapM_stripped (fun _ _ hxy => hxy.text _ rfl) h.elements]
  rfl

theorem spread_strips {r r' : FieldRendition} (h : r.Strips r') (stars : String) :
    spread stars r' = (spread stars r).stripped := by
  simp [spread, h.ifPresent h.whole.memberOperand]

theorem pair_strips (hkey : (c .key).Strips (c' .key)) (hvalue : (c .value).Strips (c' .value)) :
    pair c' = (pair c).stripped := by
  have hlabel : keyLabel? (c' .key).value = keyLabel? (c .key).value := by
    rw [hkey.whole.value, keyLabel?_erase]
  simp only [pair, hlabel, Writer.stripped_bind, Writer.stripped_liftM]
  refine bind_congr fun label => ?_
  rcases label with _ | label
  · simp [hkey.whole.argument, hvalue.whole.argument, hkey.whole.isKind]
  · simp [hvalue.whole.argument]

theorem require_strips {α : Type} {self : Value} {f : Field} {w w' : Unit → Writer α}
    (h : self.kind?.any (·.has f) = true → w' () = (w ()).stripped) :
    require self.erase f >>= w' = (require self f >>= w).stripped := by
  rw [require, require, Value.kind?_erase, Value.typeName_erase]
  split
  · exact h ‹_›
  · rfl

theorem parameter_strips (self : Value) (hname : (c' .name).value = (c .name).value)
    (sign : String) : parameter self.erase c' sign = (parameter self c sign).stripped := by
  refine require_strips fun _ => ?_
  rw [hname]
  rcases htext : (c .name).value.text? with _ | _ <;> simp [htext]

theorem optionalParameter_strips (self : Value) (hname : (c' .name).value = (c .name).value)
    (hvalue : self.kind?.any (·.has .name) = true → self.kind?.any (·.has .value) = true →
      (c .value).Strips (c' .value)) :
    optionalParameter self.erase c' = (optionalParameter self c).stripped := by
  refine require_strips fun hhasName => ?_
  rw [hname, Writer.stripped_bind, Writer.stripped_declare]
  refine bind_congr fun _ => require_strips fun hhasValue => ?_
  simp [(hvalue hhasName hhasValue).whole.argument]

theorem keywordParameter_strips (self : Value) (hname : (c' .name).value = (c .name).value)
    (hvalue : self.kind?.any (·.has .name) = true → self.kind?.any (·.has .value) = true →
      (c .value).Strips (c' .value)) :
    keywordParameter self.erase c' = (keywordParameter self c).stripped := by
  refine require_strips fun hhasName => ?_
  rw [hname, Writer.stripped_bind, Writer.stripped_declare]
  refine bind_congr fun _ => ?_
  rw [Writer.stripped_bind, Writer.stripped_liftM]
  refine bind_congr fun _ => require_strips fun hhasValue => ?_
  have hpart := hvalue hhasName hhasValue
  simp [hpart.whole.argument, hpart.whole.isNull]

theorem parameterGroup_strips {r r' : FieldRendition} (h : r.Strips r') {role : Role}
    (hrole : ∀ v : Value, v.plays role = true) :
    parameterGroup r' role = (parameterGroup r role).stripped :=
  h.sequence_bind (Writer.mapM_stripped (fun x _ hxy => hxy.text _ (hrole x.value)) h.elements)

theorem singleParameter_strips {r r' : FieldRendition} (h : r.Strips r') (sign : String) :
    singleParameter r' sign = (singleParameter r sign).stripped :=
  h.ifPresent (by simp [h.whole.text (.parameter sign) rfl])

theorem parameters_strips (self : Value)
    (h : self.kind? = some .parameters → ∀ f, Kind.parameters.has f = true →
      Kind.parameters.place f = .part → (c f).Strips (c' f)) :
    parameters self.erase c' = (parameters self c).stripped := by
  refine require_strips fun hhas => ?_
  obtain ⟨kind, hkind, hhas⟩ := (Option.any_eq_true _ _).mp hhas
  obtain rfl := Kind.eq_of_has_requireds hhas
  have hgroup (f : Field) (hhas : Kind.parameters.has f = true)
      (hplace : Kind.parameters.place f = .part) (role : Role)
      (hrole : ∀ v : Value, v.plays role = true) :
      parameterGroup (c' f) role = (parameterGroup (c f) role).stripped :=
    parameterGroup_strips (h hkind f hhas hplace) hrole
  have hsingle (f : Field) (hhas : Kind.parameters.has f = true)
      (hplace : Kind.parameters.place f = .part) (sign : String) :
      singleParameter (c' f) sign = (singleParameter (c f) sign).stripped :=
    singleParameter_strips (h hkind f hhas hplace) sign
  rw [hgroup .requireds rfl rfl _ fun _ => rfl, hgroup .optionals rfl rfl _ fun _ => rfl,
    hsingle .rest rfl rfl, hgroup .posts rfl rfl _ fun _ => rfl,
    hgroup .keywords rfl rfl _ fun _ => rfl, hsingle .keywordRest rfl rfl,
    hsingle .block rfl rfl]
  simp

/-! ## Literals -/

open Literal (Segment)

/-- Erasure leaves alone what a part of a string is. -/
theorem stringPart_erase {α β : Type} {f : α → β} {value : α → Value} {value' : β → Value} {x : α}
    (h : value' (f x) = (value x).erase) :
    stringPart value' (f x) = (stringPart value x).map f := by
  have hpart : stringPart value' (f x) = stringPart (fun _ => value x) (f x) := by
    simp only [stringPart, h]
    cases value x with
    | node kind field => cases kind <;> rfl
    | _ => rfl
  rw [hpart]
  exact stringPart_map rfl

theorem spliceSegments_strips {segments : List (Segment (RelatedPair Rendition.Strips))}
    (h : ∀ z ∈ Literal.slotsOf segments, z.before.value.isKind .embedded = true) :
    Literal.spliceSegments Text.ofChars (fun slot : Rendition => slot.text .slot)
        (segments.map (Segment.map (·.after))) =
      (Literal.spliceSegments Text.ofChars (fun slot : Rendition => slot.text .slot)
        (segments.map (Segment.map (·.before)))).stripped := by
  induction segments with
  | nil => rfl
  | cons segment rest ih =>
    cases segment with
    | run text => simp [Segment.map, Literal.spliceSegments, ih h, Literal.afterRun]
    | slot z =>
      obtain ⟨hslot, hrest⟩ := List.forall_mem_cons.mp h
      simp [Segment.map, Literal.spliceSegments, ih hrest, z.related.text .slot hslot]

theorem interpolated_strips (h : (c .parts).Strips (c' .parts)) :
    interpolated c' = (interpolated c).stripped := by
  refine h.sequence_bind ?_
  obtain ⟨zs, hxs, hys⟩ := exists_pairs h.elements
  have hbefore : (zs.map (·.before)).map (stringPart Rendition.value) =
      (zs.map (stringPart (·.before.value))).map (Literal.Part.map (·.before)) := by
    rw [List.map_map, List.map_map]
    exact List.map_congr_left fun z _ => stringPart_map rfl
  have hafter : (zs.map (·.after)).map (stringPart Rendition.value) =
      (zs.map (stringPart (·.before.value))).map (Literal.Part.map (·.after)) := by
    rw [List.map_map, List.map_map]
    exact List.map_congr_left fun z _ => stringPart_erase z.related.value
  simp only [hxs, hys, hbefore, hafter, Literal.segments_map, Writer.liftM_map, bind_map_left,
    Writer.stripped_bind, Writer.stripped_liftM]
  refine Writer.liftM_bind_congr fun segments hsegments => ?_
  have hslots : ∀ z ∈ Literal.slotsOf segments, z.before.value.isKind .embedded = true := by
    intro z hz
    rw [(slotsOf_segmentsAfter hsegments).1, List.mem_filter] at hz
    exact hz.2
  simp only [Literal.splice, spliceSegments_strips hslots, Writer.stripped_bind,
    Writer.stripped_pure]

theorem array_strips (h : (c .elements).Strips (c' .elements)) :
    array c' = (array c).stripped :=
  h.sequence_bind (by simp [arguments_none_strips h.elements])

theorem hash_strips (h : (c .elements).Strips (c' .elements)) : hash c' = (hash c).stripped := by
  simp [hash, hashElements_strips h]

end Rules
end TerseRuby
