import TerseRuby.Proofs.Spacing.Rules

/-!
# The blank after a keyword

One of the options asks for a blank after a keyword where the language needs none.  It is cosmetic:
in a tree whose nodes are filled, leaving such blanks out changes nothing else.  In particular no
rule that looks at the first or the last character of a text finds a blank there, and a blank that
the language needs is written in both cases.

* `Value.renditionSpaced b` and `renderSpaced`: the renderer in which every part of a tree writes
  such blanks, or leaves them out, as soon as it is written, so that all rules around it see a blank
  or none, and not a glyph for either.
* `Value.rendition_agrees` and `renderSpaced_eq_renderUnder`: it makes the same texts.
* `DropsBlanks` and `Cosmetic`: a text that lacks some blanks before quotes and bars, and outcomes
  of rendering that differ in no more than that.
* `render_cosmetic`, the main result.
* `render_cosmetic_unfilled`: why the nodes have to be filled.  If a number is given as the empty
  text, then the blank after a keyword stands before something else; and if the text of a comment is
  no text, then the failure counts the blanks before it.
-/

set_option autoImplicit false

namespace TerseRuby

/-! ## Blanks that are settled at once -/

/-- A rendition that settles its blanks. -/
def Rendition.spaced (b : Bool) (r : Rendition) : Rendition :=
  ⟨r.value, fun role => Draft.spaced b <$> r.write role⟩

/-- The rendition of a field that settles its blanks. -/
def FieldRendition.spaced (b : Bool) (r : FieldRendition) : FieldRendition :=
  ⟨r.toRendition.spaced b, r.elements.map (Rendition.spaced b)⟩

theorem Rendition.Agrees.spaced {b : Bool} {r r' : Rendition} (h : r.Agrees b r') :
    r.Agrees b (r'.spaced b) := by
  refine ⟨h.value, fun role hfits => ?_, h.filled⟩
  rw [← id_map (r.write role)]
  exact (h.write role hfits).map fun _ _ hd => hd.spaced

namespace Value

mutual

/-- A value and how it is written, with the blanks settled in every part of it. -/
def renditionSpaced (b : Bool) : Value → FieldRendition
  | .node kind field =>
    ⟨Rendition.spaced b
      ⟨.node kind field, Rules.write (.node kind field) fun f => renditionSpaced b (field f)⟩, []⟩
  | .seq items => ⟨(leafRendition (.seq items)).spaced b, itemRenditionsSpaced b items⟩
  | .scalar s => (leafFieldRendition (.scalar s)).spaced b
  | .table entries => (leafFieldRendition (.table entries)).spaced b
  | .location l => (leafFieldRendition (.location l)).spaced b

/-- The items of a sequence and how they are written, with the blanks settled. -/
def itemRenditionsSpaced (b : Bool) : List Value → List Rendition
  | [] => []
  | v :: rest => (renditionSpaced b v).toRendition :: itemRenditionsSpaced b rest

end

@[simp] theorem renditionSpaced_value (b : Bool) (v : Value) : (renditionSpaced b v).value = v := by
  cases v <;> rfl

theorem renditionSpaced_of_not_isNode (b : Bool) {v : Value} (h : v.isNode = false) :
    (renditionSpaced b v).toRendition = v.leafRendition.spaced b := by
  cases v with
  | node kind field => cases h
  | _ => rfl

theorem itemRenditionsSpaced_eq_map (b : Bool) (items : List Value) :
    itemRenditionsSpaced b items = items.map fun v => (renditionSpaced b v).toRendition := by
  induction items with
  | nil => rfl
  | cons v rest ih => simp [itemRenditionsSpaced, ih]

/-- The elements of a rendition, one by one. -/
theorem renditionSpaced_elements_eq (b : Bool) (v : Value) :
    (renditionSpaced b v).elements = v.elements.map fun e => (renditionSpaced b e).toRendition := by
  have hleaf (v : Value) (hv : ∀ items, v ≠ .seq items) :
      (v.elements.map leafRendition).map (Rendition.spaced b) =
        v.elements.map fun e => (renditionSpaced b e).toRendition := by
    rw [List.map_map]
    refine List.map_congr_left fun e he => (renditionSpaced_of_not_isNode b ?_).symm
    rw [← Bool.not_eq_true]
    intro hnode
    obtain ⟨items, hitems, _⟩ := exists_items_of_mem_elements he hnode
    exact hv items hitems
  cases v with
  | node kind field => rfl
  | seq items => exact itemRenditionsSpaced_eq_map b items
  | scalar s => exact hleaf _ fun items hitems => by cases hitems
  | table entries => exact hleaf _ fun items hitems => by cases hitems
  | location l => rfl

/-- What has no fields is written in one way. -/
theorem leafRendition_agrees (b : Bool) {v : Value} (h : v.isNode = false) :
    v.leafRendition.Agrees b v.leafRendition := by
  have hparts (f : Field) : FieldRendition.absent.value = v.field f := by
    cases v with
    | node kind field => cases h
    | _ => rfl
  refine Rules.write_agrees ⟨hparts, hparts, fun kind hkind => ?_, isFilled_of_not_isNode h⟩
  obtain ⟨field, rfl⟩ := exists_of_kind? hkind
  cases h

/-- A value is written in the same way but for blanks if the nodes among its elements are, and the
value itself is if it is a node. -/
theorem agrees_of_elements (b : Bool) {v : Value}
    (hnode : v.isNode = true →
      v.rendition.toRendition.Agrees b (v.renditionSpaced b).toRendition)
    (h : ∀ e ∈ v.elements, e.isNode = true →
      e.rendition.toRendition.Agrees b (e.renditionSpaced b).toRendition) :
    v.rendition.Agrees b (v.renditionSpaced b) := by
  have hwhole (v : Value) (hv : v.isNode = true →
      v.rendition.toRendition.Agrees b (v.renditionSpaced b).toRendition) :
      v.rendition.toRendition.Agrees b (v.renditionSpaced b).toRendition := by
    cases hleaf : v.isNode
    · rw [toRendition_of_not_isNode hleaf, renditionSpaced_of_not_isNode b hleaf]
      exact (leafRendition_agrees b hleaf).spaced
    · exact hv hleaf
  refine ⟨hwhole v hnode, ?_, by rw [rendition_elements, rendition_value]⟩
  rw [rendition_elements_eq, renditionSpaced_elements_eq, List.forall₂_map_left_iff,
    List.forall₂_map_right_iff, List.forall₂_same]
  exact fun e he => hwhole e (h e he)

/-- **A tree whose nodes are filled is written in the same way, but for blanks**, whether they are
settled in every part of it or left open. -/
theorem rendition_agrees (b : Bool) (v : Value) (h : v.isFilledTree = true) :
    v.rendition.Agrees b (v.renditionSpaced b) := by
  induction v using Value.induction with
  | seq items ih =>
    refine agrees_of_elements b (fun hnode => by cases hnode) fun e he hnode => ?_
    exact (ih e he (isFilledTree_item h he hnode)).whole
  | node kind field ih =>
    refine ⟨(Rules.write_agrees ⟨fun f => rendition_value _, fun f => renditionSpaced_value b _,
      fun kind' hkind f hown => ?_, isFilled_of_isFilledTree h⟩).spaced, .nil, rfl⟩
    cases hkind
    exact ih f (isFilledTree_field h (Kind.mem_ownFields_of_owns hown))
  -- what is neither a sequence nor a node has no nodes in it
  | _ =>
    refine agrees_of_elements b (fun hnode => by cases hnode) fun e he hnode => ?_
    obtain ⟨items, hitems, _⟩ := exists_items_of_mem_elements he hnode
    cases hitems

theorem isFilledTree_fileBody {tree : Value} (h : tree.isFilledTree = true) :
    tree.fileBody.isFilledTree = true := by
  cases tree with
  | node kind field =>
    cases kind
    case program => exact isFilledTree_field h (by decide)
    all_goals exact h
  | scalar c => cases c <;> rfl
  | _ => exact h

end Value

/-- The text of a tree before the choice of the separator, where blanks are settled at once. -/
def renderTextSpaced (setting : Setting) (b : Bool) (tree : Value) : Except Fault Text := do
  let (draft, _) ← (((tree.fileBody.renditionSpaced b).write (.body true)).run setting).run []
  draft.build

/-- The text of a tree written under a setting, where blanks are settled at once. -/
def renderSpaced (setting : Setting) (o : Options) (tree : Value) : Except Fault String :=
  match renderTextSpaced setting o.spaceAfterKeywords tree with
  | .ok text => .ok (String.ofList (text.spell o))
  | .error fault => .error fault

/-- The two renderers fail alike, in a way that no option changes, or have texts that agree. -/
theorem renderText_cases (setting : Setting) (b : Bool) {tree : Value}
    (h : tree.isFilledTree = true) :
    (∃ fault : Fault, fault.IsSettled ∧ renderText setting tree = .error fault ∧
        renderTextSpaced setting b tree = .error fault) ∨
      ∃ t t', renderText setting tree = .ok t ∧ renderTextSpaced setting b tree = .ok t' ∧
        Text.Agrees b false t t' := by
  have hwrite := (Value.rendition_agrees b tree.fileBody
    (Value.isFilledTree_fileBody h)).whole.write (.body true) rfl setting []
  rw [renderText, renderDraft, renderTextSpaced]
  generalize ((tree.fileBody.rendition.write (.body true)).run setting).run [] = out at hwrite ⊢
  generalize (((tree.fileBody.renditionSpaced b).write (.body true)).run setting).run [] = out'
    at hwrite ⊢
  cases hwrite with
  | failed hsettled => exact .inl ⟨_, hsettled, rfl, rfl⟩
  | done locals hdrafts =>
    obtain ⟨t, t', ht, ht', hagrees⟩ := hdrafts
    exact .inr ⟨t, t', ht, ht', hagrees⟩

theorem Text.spell_spaced (o : Options) (t : Text) :
    (t.spaced o.spaceAfterKeywords).spell o = t.spell o := by
  rw [spaced, spell, spell, List.flatMap_assoc]
  congr 1
  funext g
  rcases g with c | _ | _
  · simp [Glyph.spaced, Glyph.spell]
  · simp [Glyph.spaced, Glyph.spell]
  · cases hspace : o.spaceAfterKeywords <;> simp [Glyph.spaced, Glyph.spell, hspace]

theorem renderSpaced_eq_renderUnder (setting : Setting) (o : Options) {tree : Value}
    (h : tree.isFilledTree = true) : renderSpaced setting o tree = renderUnder setting o tree := by
  rw [renderSpaced, renderUnder]
  rcases renderText_cases setting o.spaceAfterKeywords h with
    ⟨fault, hsettled, hopen, hspaced⟩ | ⟨t, t', hopen, hspaced, hagrees⟩
  · rw [hopen, hspaced]
    exact congrArg Except.error (hsettled o).symm
  · rw [hopen, hspaced]
    dsimp only
    rw [← Text.spell_spaced o t', hagrees.same, Text.spell_spaced]

/-! ## The two choices -/

/-- The second text lacks some blanks of the first, each of which stands there before a double
quote, a single quote or a bar. -/
inductive DropsBlanks : List Char → List Char → Prop where
  /-- Nothing is left. -/
  | nil : DropsBlanks [] []
  /-- A character of both texts. -/
  | keep (c : Char) {s t : List Char} (h : DropsBlanks s t) : DropsBlanks (c :: s) (c :: t)
  /-- A blank that the second text lacks. -/
  | drop {c : Char} {s t : List Char} (hc : c = '"' ∨ c = '\'' ∨ c = '|')
      (h : DropsBlanks (c :: s) t) : DropsBlanks (' ' :: c :: s) t

/-- Two outcomes of rendering: the same failure, or texts of which the second lacks some blanks
before quotes and bars. -/
inductive Cosmetic : Except Fault String → Except Fault String → Prop where
  /-- The same failure. -/
  | failed (fault : Fault) : Cosmetic (.error fault) (.error fault)
  /-- Two texts. -/
  | written {s t : String} (h : DropsBlanks s.toList t.toList) : Cosmetic (.ok s) (.ok t)

/-- A solid text with its blanks, and without them. -/
theorem Text.dropsBlanks_spell (o : Options) {t : Text} (h : t.isSolid = true) :
    DropsBlanks (t.spell { o with spaceAfterKeywords := true })
      (t.spell { o with spaceAfterKeywords := false }) := by
  induction t with
  | nil => exact .nil
  | cons g t ih =>
    cases g with
    | char c => exact .keep c (ih h)
    | separator => exact .keep o.separator (ih h)
    | optionalBlank =>
      obtain ⟨hstart, ht⟩ := Bool.and_eq_true_iff.mp h
      rcases t with _ | ⟨c | _ | _, t⟩
      · cases hstart
      · have hc : c = '"' ∨ c = '\'' ∨ c = '|' := by
          simpa [startsWith, mayFollowBlank, isQuote, or_assoc] using hstart
        exact .drop hc (ih ht)
      · cases hstart
      · cases hstart

theorem renderUnder_cosmetic (setting : Setting) (o : Options) {tree : Value}
    (h : tree.isFilledTree = true) :
    Cosmetic (renderUnder setting { o with spaceAfterKeywords := true } tree)
      (renderUnder setting { o with spaceAfterKeywords := false } tree) := by
  rw [renderUnder, renderUnder]
  rcases renderText_cases setting true h with
    ⟨fault, hsettled, hopen, _⟩ | ⟨t, _, hopen, _, hagrees⟩
  · rw [hopen]
    dsimp only
    rw [hsettled, hsettled]
    exact .failed fault
  · rw [hopen]
    refine .written ?_
    rw [String.toList_ofList, String.toList_ofList]
    exact Text.dropsBlanks_spell o hagrees.before.solid

/-- **The blank after a keyword is cosmetic.**  For every tree whose nodes are filled, the outcomes
under options that differ in that blank only are the same failure, or the text without such blanks
is the text with them less some blanks before quotes and bars, whether the tree was given or read
from text.  This does not come from blanks being left open until the end: under all options the
renderer that settles them at once has the same outcome. -/
theorem render_cosmetic (o : Options) (tree : Value) (h : tree.isFilledTree = true) :
    Cosmetic (render { o with spaceAfterKeywords := true } tree)
        (render { o with spaceAfterKeywords := false } tree) ∧
      Cosmetic (renderRead { o with spaceAfterKeywords := true } tree)
        (renderRead { o with spaceAfterKeywords := false } tree) ∧
      renderSpaced (Setting.ofOptions o) o tree = render o tree ∧
      renderSpaced (Setting.ofText o) o tree = renderRead o tree :=
  ⟨renderUnder_cosmetic _ o h, renderUnder_cosmetic _ o h, renderSpaced_eq_renderUnder _ o h,
    renderSpaced_eq_renderUnder _ o h⟩

/-- The output of a text. -/
def outputText : Value :=
  .ofFields .call [(.receiver, .null), (.name, .scalar (.str "puts")),
    (.arguments, .seq [.ofFields .string [(.content, .scalar (.str "x"))]])]

/-- The output of a text in a block with a parameter. -/
def outputInBlock : Value :=
  .ofFields .call [(.receiver, .ofFields .localRead [(.name, .scalar (.str "a"))]),
    (.name, .scalar (.str "each")),
    (.block, .ofFields .block
      [(.parameters, .ofFields .parameters
        [(.requireds, .seq [.ofFields .requiredParameter [(.name, .scalar (.str "y"))]])]),
        (.body, outputText)])]

theorem render_cosmetic_block :
    render { spaceAfterKeywords := true } outputInBlock = .ok "a.each do |y|;puts \"x\";end" ∧
      render {} outputInBlock = .ok "a.each do|y|;puts\"x\";end" ∧
      Cosmetic (.ok "a.each do |y|;puts \"x\";end") (.ok "a.each do|y|;puts\"x\";end") ∧
      renderSpaced (Setting.ofOptions {}) {} outputInBlock = render {} outputInBlock := by
  have hon : render { spaceAfterKeywords := true } outputInBlock =
      .ok "a.each do |y|;puts \"x\";end" := rfl
  have hoff : render {} outputInBlock = .ok "a.each do|y|;puts\"x\";end" := rfl
  obtain ⟨hcosmetic, _, hspaced, _⟩ := render_cosmetic {} outputInBlock rfl
  exact ⟨hon, hoff, hon ▸ hoff ▸ hcosmetic, hspaced⟩

/-- A condition on a number that is given as the empty text. -/
def emptyCondition : Value :=
  .ofFields .ifThen [(.predicate, .ofFields .integer [(.value, .scalar (.str ""))])]

/-- An output before a comment whose text is a number. -/
def foreignComment : Value :=
  .ofFields .statements [(.body, .seq
    [outputText, .ofFields .comment [(.text, .scalar (.int 5))]])]

/-- In both trees only one node is not filled, a number and a comment.  In the first the blank after
the keyword stands before a separator; in the second the failure counts one more piece where the
blank is written. -/
theorem render_cosmetic_unfilled :
    ((emptyCondition.preorder.filter fun v => !v.isFilled).map Value.kind? = [some .integer] ∧
        ¬ Cosmetic (render { spaceAfterKeywords := true } emptyCondition)
          (render { spaceAfterKeywords := false } emptyCondition)) ∧
      (foreignComment.preorder.filter fun v => !v.isFilled).map Value.kind? = [some .comment] ∧
        ¬ Cosmetic (render { stripComments := false, spaceAfterKeywords := true } foreignComment)
          (render { stripComments := false, spaceAfterKeywords := false } foreignComment) := by
  have hspace : render { spaceAfterKeywords := true } emptyCondition = .ok "if ;end" := rfl
  have hnone : render { spaceAfterKeywords := false } emptyCondition = .ok "if;end" := rfl
  have hfive : render { stripComments := false, spaceAfterKeywords := true } foreignComment =
      .error (.notText "int" 5 0) := rfl
  have hfour : render { stripComments := false, spaceAfterKeywords := false } foreignComment =
      .error (.notText "int" 4 0) := rfl
  refine ⟨⟨rfl, fun h => ?_⟩, rfl, fun h => ?_⟩
  · rw [hspace, hnone] at h
    cases h with
    | written h =>
      have h : DropsBlanks ['i', 'f', ' ', ';', 'e', 'n', 'd'] ['i', 'f', ';', 'e', 'n', 'd'] := h
      rcases h with _ | ⟨_, _ | ⟨_, _ | _ | ⟨hc, _⟩⟩⟩
      simp at hc
  · rw [hfive, hfour] at h
    cases h

end TerseRuby
