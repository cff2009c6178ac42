import TerseRuby.Render

/-!
# The debug log

Rendering and minifying leave a record of what they did: how many statements a file had, which kind
of node had no rule, and by how much a source shrank.  Records are kept as `Event`s; their channel
and wording are in `Event.line`.
-/

set_option autoImplicit false

namespace TerseRuby

namespace Log

/-- The channel above all others. -/
def root : String := "kureha"

/-- The channel of the renderer. -/
def renderer : String := root ++ ".renderers.ruby"

/-- The channel for a name: one that is not already below the root is put there. -/
def channel (name : String) : String :=
  if name == root || (root ++ ".").isPrefixOf name then name else root ++ "." ++ name

end Log

/-- Something worth a record. -/
inductive Event where
  /-- A file with this many statements, comments and blank lines counted, was rendered. -/
  | rendered (statements : Nat)
  /-- A node that is no expression stood in the place of one. -/
  | noRule (kind : String)
  /-- A source of the first length became a text of the second. -/
  | minified (before after : Nat)
  deriving DecidableEq, Repr

namespace Event

/-- The numeral of a count. -/
def count (n : Nat) : String := String.ofList (Decimal.natText n)

/-- The channel of a record. -/
def channel : Event → String
  | .rendered _ => Log.renderer
  | .noRule _ => Log.renderer
  | .minified _ _ => Log.root

/-- The wording of a record. -/
def message : Event → String
  | .rendered n => "Rendered " ++ count n ++ " top-level statements"
  | .noRule kind => "No rendering rule for " ++ kind
  | .minified n m => "Minified " ++ count n ++ " chars to " ++ count m ++ " chars"

/-- A record as a line of the log. -/
def line (e : Event) : String := "DEBUG " ++ e.channel ++ " " ++ e.message

end Event

/-- Whether a node is misplaced because it is no expression, and not because of what the place
around it expects. -/
def Misplacement.isNoExpression : Misplacement → Bool
  | .nestedProgram | .strayTrivia | .strayElement | .foreignValue => true
  | _ => false

/-- The records that a failure of rendering leaves. -/
def Fault.events : Fault → List Event
  | .unsupported kind reason =>
    if reason.all Misplacement.isNoExpression then [.noRule kind] else []
  | _ => []

/-- The records that rendering a tree leaves.  The statements are counted once they are written,
before the text is joined. -/
def renderEvents (o : Options) (tree : Value) : List Event :=
  match renderDraft (Setting.ofOptions o) tree, tree.fileBody.bodyStatements with
  | .ok _, .ok statements => [.rendered statements.length]
  | .error fault, _ => fault.events
  | .ok _, .error fault => fault.events

end TerseRuby
