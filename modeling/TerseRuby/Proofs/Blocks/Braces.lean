import TerseRuby.Proofs.Blocks.Mode

/-!
# No `do` in the header of a loop or after a jump

A `do` in the header of a loop, or in the values that a jump carries, would be read as belonging to
the loop or the jump.  So in there every block has to be written with braces, and not only the one
that stands directly in it.

To say that the form with `do` is never used, the renderer is taken with another form in its place.
`Value.renditionWith form` is that renderer, and with `Rules.braceForm` it is the one that knows
braces only.  The main statement `Value.braced_forms_agree` is that under braces all these renderers
have the same outcome, and so the renderer as it is has the outcome of the one that knows braces
only.  For the constructs with such a part (`Kind.header?`) it follows that the part is as good as
written by any of them, while the rest of the construct is written in the mode that was in force
before.
-/

set_option autoImplicit false

namespace TerseRuby

open Writer (withBraces)
open Rules (BlockForm)

namespace Value

/-- A value without fields and how it is written, with some form of blocks. -/
def leafRenditionWith (form : BlockForm) (v : Value) : Rendition :=
  ⟨v, Rules.writeWith form v fun _ => .absent⟩

/-- A value without fields, and its elements if they have no fields either. -/
def leafFieldRenditionWith (form : BlockForm) (v : Value) : FieldRendition :=
  ⟨leafRenditionWith form v, v.elements.map (leafRenditionWith form)⟩

mutual

/-- A value and how it is written, with some form in the place of that of blocks with `do`. -/
def renditionWith (form : BlockForm) : Value → FieldRendition
  | .node kind field =>
    ⟨⟨.node kind field,
      Rules.writeWith form (.node kind field) fun f => renditionWith form (field f)⟩, []⟩
  | .seq items => ⟨leafRenditionWith form (.seq items), itemRenditionsWith form items⟩
  | .scalar s => leafFieldRenditionWith form (.scalar s)
  | .table entries => leafFieldRenditionWith form (.table entries)
  | .location l => leafFieldRenditionWith form (.location l)

/-- The items of a sequence and how they are written, with some form of blocks. -/
def itemRenditionsWith (form : BlockForm) : List Value → List Rendition
  | [] => []
  | v :: rest => (renditionWith form v).toRendition :: itemRenditionsWith form rest

end

theorem itemRenditionsWith_eq_map (form : BlockForm) (items : List Value) :
    itemRenditionsWith form items = items.map fun v => (renditionWith form v).toRendition := by
  induction items with
  | nil => rfl
  | cons v rest ih => rw [itemRenditionsWith, ih, List.map_cons]

/-- The renderer as it is has the form with `do`. -/
theorem rendition_eq_renditionWith (v : Value) : v.rendition = v.renditionWith Rules.doForm := by
  have hleaf : leafRendition = leafRenditionWith Rules.doForm := by
    funext v
    rw [leafRendition, leafRenditionWith, Rules.write_eq_writeWith]
  induction v using Value.induction with
  | seq items ih =>
    rw [rendition, renditionWith, itemRenditions_eq_map, itemRenditionsWith_eq_map, hleaf]
    congr 1
    exact List.map_congr_left fun v hv => congrArg FieldRendition.toRendition (ih v hv)
  | node kind field ih =>
    rw [rendition, renditionWith, Rules.write_eq_writeWith, funext ih]
  | _ => rw [rendition, renditionWith, leafFieldRendition, leafFieldRenditionWith, hleaf]

theorem leafRenditionWith_braced (form : BlockForm) (v : Value) :
    leafRenditionWith Rules.braceForm v = (leafRenditionWith form v).braced := by
  rw [leafRenditionWith, leafRenditionWith, Rendition.braced]
  congr 1
  funext role
  exact Rules.writeWith_braced (fun _ => .absent) form v role

/-- **Under braces a tree is written as by the renderer that knows braces only**, whatever form
stands in the place of the one with `do`. -/
theorem renditionWith_braced (form : BlockForm) (v : Value) :
    v.renditionWith Rules.braceForm = (v.renditionWith form).braced := by
  have hleaf (v : Value) : leafFieldRenditionWith Rules.braceForm v =
      (leafFieldRenditionWith form v).braced := by
    rw [leafFieldRenditionWith, leafFieldRenditionWith, FieldRendition.braced, List.map_map]
    exact congrArg₂ FieldRendition.mk (leafRenditionWith_braced form v)
      (List.map_congr_left fun e _ => leafRenditionWith_braced form e)
  induction v using Value.induction with
  | seq items ih =>
    rw [renditionWith, renditionWith, itemRenditionsWith_eq_map, itemRenditionsWith_eq_map,
      FieldRendition.braced, List.map_map]
    exact congrArg₂ FieldRendition.mk (leafRenditionWith_braced form _)
      (List.map_congr_left fun v hv => congrArg FieldRendition.toRendition (ih v hv))
  | node kind field ih =>
    rw [renditionWith, renditionWith, funext ih]
    have hwrite : Rules.writeWith Rules.braceForm (.node kind field)
        (fun f => (renditionWith form (field f)).braced) = fun role =>
          withBraces true (Rules.writeWith form (.node kind field)
            (fun f => renditionWith form (field f)) role) :=
      funext fun role => Rules.writeWith_braced _ form (.node kind field) role
    exact congrArg (fun write => FieldRendition.mk ⟨.node kind field, write⟩ []) hwrite
  | _ => exact hleaf _

theorem rendition_braced (form : BlockForm) (v : Value) :
    v.rendition.braced = (v.renditionWith form).braced := by
  rw [rendition_eq_renditionWith, ← renditionWith_braced, ← renditionWith_braced]

end Value

/-! ## Headers -/

/-- The part of a construct in which a `do` would be read as the construct's own. -/
def Kind.header? : Kind → Option Field
  | .whileLoop => some .predicate
  | .untilLoop => some .predicate
  | .forLoop => some .collection
  | .returnJump => some .arguments
  | .breakJump => some .arguments
  | .nextJump => some .arguments
  | _ => none

/-- The parts of a node with another rendition of one of them. -/
def replaced (c : Field → FieldRendition) (f : Field) (r : FieldRendition) :
    Field → FieldRendition :=
  fun g => if g = f then r else c g

/-- The values of a jump count only as they are written under braces. -/
theorem Rules.jump_eq_of_braced (keyword : String) {c c' : Field → FieldRendition}
    (h : (c .arguments).braced = (c' .arguments).braced) : jump keyword c = jump keyword c' := by
  have hvalue : (c .arguments).value = (c' .arguments).value := by
    show (c .arguments).braced.value = (c' .arguments).braced.value
    rw [h]
  have hvalues (c : Field → FieldRendition) :
      withBraces true (do arguments (← (c .arguments).sequence) none) =
        (do arguments (← (c .arguments).braced.sequence) none) := by
    simp
  rw [jump, jump, hvalues, hvalues, h, hvalue]

/-- The header of a construct counts only as it is written under braces. -/
theorem Rules.expression_header {kind : Kind} {f : Field} (h : kind.header? = some f)
    (field : Field → Value) (c : Field → FieldRendition) {r : FieldRendition}
    (hr : (c f).braced = r.braced) :
    expression (.node kind field) c = expression (.node kind field) (replaced c f r) := by
  have htext : withBraces true ((c f).text .expression) = withBraces true (r.text .expression) :=
    congrArg (fun r : FieldRendition => r.text .expression) hr
  cases kind with
  | whileLoop =>
    cases h
    show loop "while" c = loop "while" (replaced c .predicate r)
    rw [loop, loop, htext]
    rfl
  | untilLoop =>
    cases h
    show loop "until" c = loop "until" (replaced c .predicate r)
    rw [loop, loop, htext]
    rfl
  | forLoop =>
    cases h
    show forLoop c = forLoop (replaced c .collection r)
    rw [forLoop, forLoop, htext]
    rfl
  | returnJump =>
    cases h
    exact jump_eq_of_braced "return" hr
  | breakJump =>
    cases h
    exact jump_eq_of_braced "break" hr
  | nextJump =>
    cases h
    exact jump_eq_of_braced "next" hr
  | _ => cases h

/-- **No `do` under braces.**  Whatever form stands in the place of the one with `do`, a tree under
braces has the same outcome in every role, and it is that of the renderer that knows braces only, in
any mode.  So the header of a loop and the values of a jump can be written with any such form; and
what comes after a part under braces is written in the mode that was in force before. -/
theorem Value.braced_forms_agree (form : BlockForm) :
    (∀ (v : Value) (role : Role) (s : Setting) (l : Locals),
      ((v.rendition.write role).run { s with braceBlocks := true }).run l =
          (((v.renditionWith form).write role).run { s with braceBlocks := true }).run l ∧
        ((v.rendition.write role).run { s with braceBlocks := true }).run l =
          (((v.renditionWith Rules.braceForm).write role).run s).run l) ∧
      (∀ (kind : Kind) (field : Field → Value) (f : Field), kind.header? = some f →
        (Value.node kind field).rendition.write .expression =
          Rules.expression (.node kind field)
            (replaced (fun g => (field g).rendition) f ((field f).renditionWith form))) ∧
      ∀ (v : Value) (role : Role) (next : Draft → Writer Draft) (s : Setting) (l : Locals),
        ((withBraces true (v.rendition.write role) >>= next).run s).run l =
          (((v.rendition.write role).run { s with braceBlocks := true }).run l >>= fun outcome =>
            ((next outcome.1).run s).run outcome.2) := by
  refine ⟨fun v role s l => ⟨?_, ?_⟩, fun kind field f h => ?_, fun v role next s l => rfl⟩
  · have hwrite := congrArg (fun r : FieldRendition => ((r.write role).run s).run l)
      (v.rendition_braced form)
    exact hwrite
  · have hwrite := congrArg (fun r : FieldRendition => ((r.write role).run s).run l)
      (v.renditionWith_braced Rules.doForm)
    rw [← v.rendition_eq_renditionWith] at hwrite
    exact hwrite.symm
  · exact Rules.expression_header h field _ ((field f).rendition_braced form)

/-- A call of the method `m` with a block. -/
def callWithBlock (receiver : String) (body : Value) : Value :=
  .ofFields .call [(.receiver, .ofFields .localRead [(.name, .scalar (.str receiver))]),
    (.name, .scalar (.str "m")), (.block, .ofFields .block [(.body, body)])]

/-- The parts of a loop whose condition has a block in a block, and whose body has one as well. -/
def loopOverBlocks : Field → Value
  | .predicate => callWithBlock "a" (callWithBlock "b" .null)
  | .statements => callWithBlock "c" .null
  | _ => .null

/-- The condition of the loop can be written with a form of blocks that always fails. -/
theorem Value.braced_forms_agree_loop :
    render {} (.node .whileLoop loopOverBlocks) =
        .ok "while a.m\x7bb.m\x7b\x7d\x7d;c.m do;end;end" ∧
      (Value.node .whileLoop loopOverBlocks).rendition.write .expression =
        Rules.expression (.node .whileLoop loopOverBlocks)
          (replaced (fun g => (loopOverBlocks g).rendition) .predicate
            ((loopOverBlocks .predicate).renditionWith fun _ _ => throw .emptyText)) := by
  have hrender : render {} (.node .whileLoop loopOverBlocks) =
      .ok "while a.m\x7bb.m\x7b\x7d\x7d;c.m do;end;end" := rfl
  obtain ⟨_, hheader, _⟩ := braced_forms_agree fun _ _ => throw .emptyText
  exact ⟨hrender, hheader .whileLoop loopOverBlocks .predicate rfl⟩

end TerseRuby
