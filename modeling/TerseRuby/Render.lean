import TerseRuby.Render.Node

/-!
# Rendering programs

`render` turns a tree into the shortest text that the options allow, or fails with the first cause
met.  The root is usually a program; any other node is rendered as if it were a whole file.
`renderRead` does the same for a tree that was read from text, where the constant for not-a-number
always names the same variable.
-/

set_option autoImplicit false

namespace TerseRuby

namespace Value

/-- The body of a file: that of a program, or the tree itself.  A tree that is not there is a
statement that is not there, and no body without statements. -/
def fileBody : Value → Value
  | .node .program field => field .statements
  | .scalar .null => .ofFields .statements [(.body, .seq [.null])]
  | v => v

end Value

/-- The draft of a whole file, written under the given setting with no local variables known. -/
def renderDraft (setting : Setting) (tree : Value) : Except Fault Draft := do
  let (draft, _) ← ((tree.fileBody.rendition.write (.body true)).run setting).run []
  return draft

/-- The text of a tree before the cosmetic choices. -/
def renderText (setting : Setting) (tree : Value) : Except Fault Text := do
  (← renderDraft setting tree).build

/-- The text of a tree written under a setting, with the cosmetic choices of some options. -/
def renderUnder (setting : Setting) (o : Options) (tree : Value) : Except Fault String :=
  match renderText setting tree with
  | .ok text => .ok (String.ofList (text.spell o))
  | .error fault => .error (fault.settle o)

/-- The text of a tree. -/
def render (o : Options) (tree : Value) : Except Fault String :=
  renderUnder (Setting.ofOptions o) o tree

/-- The text of a tree that was read from text. -/
def renderRead (o : Options) (tree : Value) : Except Fault String :=
  renderUnder (Setting.ofText o) o tree

end TerseRuby
