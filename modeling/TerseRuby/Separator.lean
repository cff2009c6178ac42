import TerseRuby.Tree.Value

/-!
# Separators between statements

Whether a separator has to stand before the next statement, or before the keyword that closes a
sequence, depends only on what was written last: nothing yet, a plain statement, a construct closed
by its own `end`, or a comment or blank line that already ended the line.  An `end` does not end
the line, so a closed construct is followed by a separator like any other statement; only a line
break makes the separator redundant.
-/

set_option autoImplicit false

namespace TerseRuby

/-- What was written last in a sequence of statements. -/
inductive SeparatorState where
  /-- Nothing yet. -/
  | start
  /-- A plain statement. -/
  | afterStatement
  /-- A construct closed by its own `end`, or a call with a block. -/
  | afterBlockClose
  /-- A comment or a blank line. -/
  | afterLineBreak
  deriving DecidableEq, Repr

namespace SeparatorState

/-- The name of a state. -/
def name : SeparatorState → String
  | .start => "start"
  | .afterStatement => "after_statement"
  | .afterBlockClose => "after_block_close"
  | .afterLineBreak => "after_line_break"

/-- Whether a separator has to come next. -/
def needsSeparator : SeparatorState → Bool
  | .start => false
  | .afterStatement => true
  | .afterBlockClose => true
  | .afterLineBreak => false

/-- The state after a statement. -/
def after (v : Value) : SeparatorState :=
  if v.inGroup Kind.isTrivia then .afterLineBreak
  else if v.inGroup Kind.closesWithEnd then .afterBlockClose
  else if (v.isKind .call || v.isKind .superCall) && (v.field .block).isKind .block then
    .afterBlockClose
  else .afterStatement

/-- The state after a sequence of statements. -/
def afterAll (statements : List Value) : SeparatorState :=
  match statements.getLast? with
  | some last => after last
  | none => .start

/-- The states that a sequence of statements goes through, the first included. -/
def trace (statements : List Value) : List SeparatorState := .start :: statements.map after

end SeparatorState
end TerseRuby
