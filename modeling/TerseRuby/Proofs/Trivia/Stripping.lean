import TerseRuby.Proofs.Trivia.Rules

/-!
# Dropping trivia is deleting it

Comments and blank lines can be dropped while a tree is rendered, or be taken out of the tree before
it is rendered.  They have a say in where separators stand, in whether a conditional has its
condition at the end, in what the ends of a file look like, and in what the last statement is.  In
all these places the renderer looks past the ones it drops, so the outcome is the same.

* `Value.eraseFile`: a whole file without comments and blank lines.
* `render_eraseFile`, the main result.
* `render_eraseFile_nested`: why comments have to be leaves.  If the text of a comment is not a text
  but a tree, then the renderer finds a construct in it that the tree without the comment does not
  have.
-/

set_option autoImplicit false

namespace TerseRuby

/-- A file without comments and blank lines; a single one of them leaves no statements. -/
def Value.eraseFile (tree : Value) : Value :=
  if tree.inGroup Kind.isTrivia then .ofFields .statements [] else tree.erase

/-- The body of a file without comments and blank lines. -/
theorem Value.write_fileBody_eraseFile (tree : Value) :
    tree.eraseFile.fileBody.rendition.write (.body true) =
      tree.fileBody.erase.asBody.rendition.write (.body true) := by
  cases tree with
  | node kind field => cases kind <;> rfl
  | scalar c => cases c <;> rfl
  | _ => rfl

theorem Value.hasLeafComments_fileBody {tree : Value} (h : tree.hasLeafComments = true) :
    tree.fileBody.hasLeafComments = true := by
  cases tree with
  | node kind field =>
    cases kind
    case program => exact hasLeafComments_field h (by decide)
    all_goals exact h
  | scalar c => cases c <;> rfl
  | _ => exact h

/-- Under any setting, a file without comments and blank lines has the text that the file has where
they are dropped. -/
theorem renderText_eraseFile (s : Setting) {tree : Value} (h : tree.hasLeafComments = true) :
    renderText s tree.eraseFile = renderText s.stripped tree := by
  have hbody := Value.body_strips
    (Value.rendition_strips tree.fileBody (Value.hasLeafComments_fileBody h))
  rw [renderText, renderDraft, Value.write_fileBody_eraseFile, hbody.write]
  rfl

/-- Only the separator and the blank after a keyword are a matter of spelling. -/
theorem renderUnder_congr (s : Setting) {o o' : Options}
    (hseparators : o.insertSeparators = o'.insertSeparators)
    (hspace : o.spaceAfterKeywords = o'.spaceAfterKeywords) (tree : Value) :
    renderUnder s o tree = renderUnder s o' tree := by
  have hspell : Glyph.spell o = Glyph.spell o' := by
    funext g
    cases g <;> simp [Glyph.spell, Options.separator, hseparators, hspace]
  have hsettle (fault : Fault) : fault.settle o = fault.settle o' := by
    cases fault <;> simp [Fault.settle, hspace]
  simp only [renderUnder, Text.spell, hspell, hsettle]

/-- **Dropping comments and blank lines is the same as deleting them from the tree.**  If some
options drop both, then rendering a tree under them and rendering it without comments and blank
lines, under all options that spell separators and blanks alike, has the same outcome: the same
text or the same failure, whether the tree was given or read from text. -/
theorem render_eraseFile (tree : Value) (htree : tree.hasLeafComments = true) (o o' : Options)
    (hcomments : o.stripComments = true) (hlines : o.stripBlankLines = true)
    (hseparators : o.insertSeparators = o'.insertSeparators)
    (hspace : o.spaceAfterKeywords = o'.spaceAfterKeywords) :
    render o tree = render o' tree.eraseFile ∧
      renderRead o tree = renderRead o' tree.eraseFile := by
  have hoptions : Setting.ofOptions o = (Setting.ofOptions o').stripped := by
    simp [Setting.ofOptions, Setting.stripped, hcomments, hlines]
  have htext : Setting.ofText o = (Setting.ofText o').stripped := by
    simp [Setting.ofText, Setting.ofOptions, Setting.stripped, hcomments, hlines]
  constructor
  · rw [render, render, renderUnder_congr _ hseparators hspace, renderUnder, renderUnder,
      renderText_eraseFile _ htree, hoptions]
  · rw [renderRead, renderRead, renderUnder_congr _ hseparators hspace, renderUnder, renderUnder,
      renderText_eraseFile _ htree, htext]

/-- A condition on a statement in parentheses with a comment before it.  The comment is dropped, so
nothing stands against the condition at the end. -/
def commentedCondition (comment : Value) : Value :=
  let read (text : String) : Value := .ofFields .localRead [(.name, .scalar (.str text))]
  .ofFields .ifThen
    [(.predicate, read "a"),
      (.statements, .ofFields .parentheses [(.body, .ofFields .statements [(.body, .seq
        [.ofFields .comment [(.text, comment)], read "b"])])])]

theorem render_eraseFile_comment :
    render .default (commentedCondition (.scalar (.str "c"))) = .ok "(b) if a" ∧
      render { stripComments := false } (commentedCondition (.scalar (.str "c"))).eraseFile =
        .ok "(b) if a" := by
  have hrender : render .default (commentedCondition (.scalar (.str "c"))) = .ok "(b) if a" := rfl
  have herased := (render_eraseFile (commentedCondition (.scalar (.str "c"))) rfl .default
    { stripComments := false } rfl rfl rfl rfl).1
  exact ⟨hrender, herased.symm.trans hrender⟩

/-- A comment whose text is a construct with an `end` of its own keeps the condition from standing
at the end, although the comment is dropped. -/
theorem render_eraseFile_nested :
    render .default (commentedCondition (.ofFields .beginBlock [])) ≠
      render .default (commentedCondition (.ofFields .beginBlock [])).eraseFile := by
  have hbefore : render .default (commentedCondition (.ofFields .beginBlock [])) =
      .ok "if a;(b);end" := rfl
  have hafter : render .default (commentedCondition (.ofFields .beginBlock [])).eraseFile =
      .ok "(b) if a" := rfl
  rw [hbefore, hafter]
  decide

end TerseRuby
