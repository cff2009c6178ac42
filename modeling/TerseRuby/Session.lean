import TerseRuby.Render
import TerseRuby.Tree.Decode

/-!
# Sessions

A program that renders many trees need not name its options each time: there are always active
options, and rendering without options uses those.  They can be set and reset, set for the length
of a block of steps, and are separate in every thread.  A session is a list of such steps given as
data, so that what the scoping rules say can be stated about all of them.

A renderer is kept under a name.  One that was made without options looks the active ones up each
time it is used; all renderers are shared by the threads of a session.
-/

set_option autoImplicit false

namespace TerseRuby

/-- A step of a session.  A tree is given as data and read when the step is taken. -/
inductive Step where
  /-- Show the active options. -/
  | getOptions
  /-- Change the active options. -/
  | setOptions (o : Options)
  /-- Go back to the default options. -/
  | resetOptions
  /-- Render a tree, with options of its own or with the active ones. -/
  | render (tree : Json) (o : Option Options)
  /-- Keep a renderer under a name, with options of its own or without. -/
  | makeRenderer (name : String) (o : Option Options)
  /-- Render a tree with the renderer of a name. -/
  | renderWith (name : String) (tree : Json)
  /-- Take steps with other options active; the block may end in a failure of its own. -/
  | within (o : Options) (steps : List Step) (fails : Bool)
  /-- Take steps in a new thread. -/
  | inThread (steps : List Step)

/-- The answer to a step. -/
inductive Answer where
  /-- Nothing to report. -/
  | done
  /-- Options. -/
  | options (o : Options)
  /-- Rendered text. -/
  | text (s : String)
  /-- A failure. -/
  | failure (fault : Fault)
  /-- The answers to the steps of a block, and whether it ended in a failure of its own. -/
  | block (answers : List Answer) (failed : Bool)

/-- What a session remembers. -/
structure Session where
  /-- The active options. -/
  active : Options
  /-- The renderers by name, the latest first. -/
  renderers : List (String × Option Options)

namespace Session

/-- The beginning of a session. -/
def start : Session := ⟨Options.default, []⟩

/-- Render a tree given as data. -/
def renderData (o : Options) (tree : Json) : Answer :=
  match Value.ofJson tree >>= TerseRuby.render o with
  | .ok text => .text text
  | .error fault => .failure fault

/-- Use the renderer of a name. -/
def useRenderer (s : Session) (name : String) (tree : Json) : Answer :=
  match s.renderers.lookup name with
  | some o => renderData (o.getD s.active) tree
  | none => .failure (.missingEntry name)

mutual

/-- Take one step. -/
def step (s : Session) : Step → Answer × Session
  | .getOptions => (.options s.active, s)
  | .setOptions o => (.done, { s with active := o })
  | .resetOptions => (.done, { s with active := Options.default })
  | .render tree o => (renderData (o.getD s.active) tree, s)
  | .makeRenderer name o => (.done, { s with renderers := (name, o) :: s.renderers })
  | .renderWith name tree => (s.useRenderer name tree, s)
  | .within o steps fails =>
    let (answers, inner) := run { s with active := o } steps
    (.block answers fails, { inner with active := s.active })
  | .inThread steps =>
    let (answers, inner) := run { s with active := Options.default } steps
    (.block answers false, { inner with active := s.active })

/-- Take steps in order. -/
def run (s : Session) : List Step → List Answer × Session
  | [] => ([], s)
  | first :: rest =>
    let (answer, s) := step s first
    let (answers, s) := run s rest
    (answer :: answers, s)

end

end Session
end TerseRuby
