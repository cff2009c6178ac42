import TerseRuby.Log

/-!
# Minifying source text

A minifier joins an external parser and the renderer.  The parser is any function from a source
text, and the file it came from, to a tree; what it refuses is passed on unchanged.  A `Run` shows
all that can be seen of using a minifier: the result, what the parser was asked, and the records in
the log.

`Minifier.minifyMany` goes through its sources in order and stops at the first failure.
-/

set_option autoImplicit false

namespace TerseRuby

/-- A source text with the file it came from. -/
abbrev Query := String × Option String

/-- What can be seen of a use of a minifier. -/
structure Run (α : Type) where
  /-- The result. -/
  result : Except Fault α
  /-- What the parser was asked, in order. -/
  asked : List Query
  /-- The records in the log, in order. -/
  events : List Event

/-- A parser and the options for rendering what it reads. -/
structure Minifier where
  /-- The parser. -/
  parse : Query → Except Fault Value
  /-- The options. -/
  options : Options

namespace Minifier

/-- The shortest text of a source. -/
def minify (m : Minifier) (query : Query) : Run String :=
  match m.parse query with
  | .error fault => ⟨.error fault, [query], []⟩
  | .ok tree =>
    let events := renderEvents m.options tree
    match render m.options tree with
    | .error fault => ⟨.error fault, [query], events⟩
    | .ok text => ⟨.ok text, [query], events ++ [.minified query.1.length text.length]⟩

/-- The shortest texts of several sources from one file, or the first failure. -/
def minifyMany (m : Minifier) (file : Option String) : List String → Run (List String)
  | [] => ⟨.ok [], [], []⟩
  | source :: rest =>
    let first := m.minify (source, file)
    match first.result with
    | .error fault => ⟨.error fault, first.asked, first.events⟩
    | .ok text =>
      let others := m.minifyMany file rest
      { result := others.result.map (text :: ·)
        asked := first.asked ++ others.asked
        events := first.events ++ others.events }

end Minifier
end TerseRuby
