import TerseRuby.Json.Basic

/-!
# Rendering options

Four switches choose between texts of the same program: which separator stands between statements,
whether comments and blank lines are dropped, and whether the optional blank after a keyword is
written.  Options may come as data, an object with a truth value under the name of each switch.
-/

set_option autoImplicit false

namespace TerseRuby

/-- The switches of the renderer. -/
structure Options where
  /-- Separate statements by semicolons rather than line breaks. -/
  insertSeparators : Bool := true
  /-- Drop comments. -/
  stripComments : Bool := true
  /-- Drop blank lines. -/
  stripBlankLines : Bool := true
  /-- Write the blank that may, but need not, follow a keyword. -/
  spaceAfterKeywords : Bool := false
  deriving DecidableEq, Repr

namespace Options

/-- The options in force where none were given. -/
def default : Options := {}

/-- The character between two statements. -/
def separator (o : Options) : Char := if o.insertSeparators then ';' else '\n'

/-- The options that an object describes: a switch that is not mentioned keeps its default, and
entries of other names are ignored. -/
def ofEntries (entries : List (String × Json)) : Options :=
  let switch (key : String) (fallback : Bool) : Bool :=
    match entries.lookup key with
    | some d => d.isTrue
    | none => fallback
  { insertSeparators := switch "insert_separators" default.insertSeparators
    stripComments := switch "strip_comments" default.stripComments
    stripBlankLines := switch "strip_blank_lines" default.stripBlankLines
    spaceAfterKeywords := switch "space_after_keywords" default.spaceAfterKeywords }

end Options
end TerseRuby
