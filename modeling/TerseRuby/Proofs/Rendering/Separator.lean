import TerseRuby.Proofs.Rendering.Rules
import Mathlib.Data.List.Forall2

/-!
# The choice of the separator

The options choose between two separators, and nothing else in a rendered text depends on that
choice: not whether there is a text, not how the tree fails if there is none, and not a single
character beside the separators.

* `Value.renditionAtOnce o` and `renderAtOnce`: the renderer in which every part of a tree spells
  its separators as soon as it is written, so that all rules around it see a semicolon or a line
  break, and not a glyph for either.
* `renderAtOnce_eq_renderUnder`: it makes the same texts, and fails in the same way.
* `SameButSeparators`: two outcomes of rendering that are the same but for separators.
* `render_sameButSeparators`, the main result: the outcomes under both choices are so related.
-/

set_option autoImplicit false

namespace TerseRuby

/-! ## Separators that are spelled at once -/

namespace Value

mutual

/-- A value and how it is written, with the separators spelled in every part of it. -/
def renditionAtOnce (o : Options) : Value → FieldRendition
  | .node kind field =>
    ⟨Rendition.punctuate o
      ⟨.node kind field, Rules.write (.node kind field) fun f => renditionAtOnce o (field f)⟩, []⟩
  | .seq items => ⟨(leafRendition (.seq items)).punctuate o, itemRenditionsAtOnce o items⟩
  | .scalar s => (leafFieldRendition (.scalar s)).punctuate o
  | .table entries => (leafFieldRendition (.table entries)).punctuate o
  | .location l => (leafFieldRendition (.location l)).punctuate o

/-- The items of a sequence and how they are written, with the separators spelled. -/
def itemRenditionsAtOnce (o : Options) : List Value → List Rendition
  | [] => []
  | v :: rest => (renditionAtOnce o v).toRendition :: itemRenditionsAtOnce o rest

end

theorem itemRenditionsAtOnce_eq {o : Options} {items : List Value}
    (h : ∀ v ∈ items, renditionAtOnce o v = (rendition v).punctuate o) :
    itemRenditionsAtOnce o items = (itemRenditions items).map (Rendition.punctuate o) := by
  induction items with
  | nil => rfl
  | cons v rest ih =>
    rw [List.forall_mem_cons] at h
    rw [itemRenditionsAtOnce, itemRenditions, h.1, ih h.2]
    rfl

/-- Spelling the separators part by part, or in the whole afterwards, is the same. -/
theorem renditionAtOnce_eq (o : Options) (v : Value) :
    renditionAtOnce o v = (rendition v).punctuate o := by
  induction v using Value.induction with
  | scalar s => rfl
  | table entries => rfl
  | location l => rfl
  | seq items ih =>
    rw [renditionAtOnce, rendition, itemRenditionsAtOnce_eq ih]
    rfl
  | node kind field ih =>
    have hparts : (fun f => renditionAtOnce o (field f)) =
        punctuated o fun f => rendition (field f) := funext ih
    have hwrite := Rules.write_punctuate o (fun f => rendition (field f)) (.node kind field)
    simp [renditionAtOnce, rendition, hparts, FieldRendition.punctuate, Rendition.punctuate, hwrite]

end Value

/-- The characters of a text in which no separators are left to spell. -/
def Text.spellBlanks (o : Options) (t : Text) : List Char :=
  t.flatMap fun
    | .char c => [c]
    | .separator => []
    | .optionalBlank => if o.spaceAfterKeywords then [' '] else []

theorem Text.spellBlanks_punctuate (o : Options) (t : Text) :
    (t.punctuate o).spellBlanks o = t.spell o := by
  rw [spellBlanks, spell, punctuate, List.flatMap_map]
  congr 1
  funext g
  cases g <;> rfl

/-- The text of a tree before the other cosmetic choices, where separators are spelled at once. -/
def renderTextAtOnce (setting : Setting) (o : Options) (tree : Value) : Except Fault Text := do
  let (draft, _) ← (((tree.fileBody.renditionAtOnce o).write (.body true)).run setting).run []
  draft.build

/-- The text of a tree written under a setting, where separators are spelled at once. -/
def renderAtOnce (setting : Setting) (o : Options) (tree : Value) : Except Fault String :=
  match renderTextAtOnce setting o tree with
  | .ok text => .ok (String.ofList (text.spellBlanks o))
  | .error fault => .error (fault.settle o)

theorem renderTextAtOnce_eq (setting : Setting) (o : Options) (tree : Value) :
    renderTextAtOnce setting o tree = Text.punctuate o <$> renderText setting tree := by
  simp [renderTextAtOnce, renderText, renderDraft, Value.renditionAtOnce_eq, Draft.build_punctuate]

theorem renderAtOnce_eq_renderUnder (setting : Setting) (o : Options) (tree : Value) :
    renderAtOnce setting o tree = renderUnder setting o tree := by
  rw [renderAtOnce, renderUnder, renderTextAtOnce_eq]
  rcases renderText setting tree with fault | text
  · rfl
  · exact congrArg (fun cs => Except.ok (String.ofList cs)) (Text.spellBlanks_punctuate o text)

/-! ## The two choices -/

/-- Two outcomes of rendering that are the same but for separators: the same failure, or texts of
one length that have the same character at every place, unless the first has a semicolon there and
the second a line break. -/
inductive SameButSeparators : Except Fault String → Except Fault String → Prop where
  /-- The same failure. -/
  | failed (fault : Fault) : SameButSeparators (.error fault) (.error fault)
  /-- Two texts. -/
  | written {s t : String}
      (h : List.Forall₂ (fun a b => a = b ∨ (a = ';' ∧ b = '\n')) s.toList t.toList) :
      SameButSeparators (.ok s) (.ok t)

/-- The same text with semicolons, and with line breaks. -/
theorem Text.forall₂_spell (o : Options) (t : Text) :
    List.Forall₂ (fun a b => a = b ∨ (a = ';' ∧ b = '\n'))
      (t.spell { o with insertSeparators := true })
      (t.spell { o with insertSeparators := false }) := by
  induction t with
  | nil => exact .nil
  | cons g t ih =>
    rcases g with c | _ | _
    · exact .cons (.inl rfl) ih
    · exact .cons (.inr ⟨rfl, rfl⟩) ih
    · rcases o with ⟨_, _, _, _ | _⟩
      · exact ih
      · exact .cons (.inl rfl) ih

theorem renderUnder_sameButSeparators (setting : Setting) (o : Options) (tree : Value) :
    SameButSeparators (renderUnder setting { o with insertSeparators := true } tree)
      (renderUnder setting { o with insertSeparators := false } tree) := by
  rw [renderUnder, renderUnder]
  rcases renderText setting tree with fault | text
  · have hsettle : fault.settle { o with insertSeparators := true } =
        fault.settle { o with insertSeparators := false } := by
      cases fault <;> rfl
    simp only [hsettle]
    exact .failed _
  · refine .written ?_
    rw [String.toList_ofList, String.toList_ofList]
    exact Text.forall₂_spell o text

/-- **The separator changes nothing else.**  For every tree, the outcomes under options that differ
in the separator only are the same but for separators, whether the tree was given or read from
text.  This does not come from separators being left open until the end: under all options the
renderer that spells them at once has the same outcome. -/
theorem render_sameButSeparators (o : Options) (tree : Value) :
    SameButSeparators (render { o with insertSeparators := true } tree)
        (render { o with insertSeparators := false } tree) ∧
      SameButSeparators (renderRead { o with insertSeparators := true } tree)
        (renderRead { o with insertSeparators := false } tree) ∧
      renderAtOnce (Setting.ofOptions o) o tree = render o tree ∧
      renderAtOnce (Setting.ofText o) o tree = renderRead o tree :=
  ⟨renderUnder_sameButSeparators _ o tree, renderUnder_sameButSeparators _ o tree,
    renderAtOnce_eq_renderUnder _ o tree, renderAtOnce_eq_renderUnder _ o tree⟩

end TerseRuby
