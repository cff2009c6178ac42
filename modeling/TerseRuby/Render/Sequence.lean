import TerseRuby.Render.Shape
import TerseRuby.Render.Writer
import TerseRuby.Separator

/-!
# Statement sequences

The statements of a body are written one after the other, with separators where they are needed.
Comments and blank lines are dropped or kept as the setting says; a kept comment ends its line, and
a file neither begins nor ends with a blank line, nor ends with a line break after a comment.

* `Sequence.kept`: what of a sequence is written at all;
* `Sequence.write`: a whole sequence;
* `Sequence.clause`: a body between a header and the keyword that closes it.
-/

set_option autoImplicit false

namespace TerseRuby
namespace Sequence

/-- A statement, and how it is written. -/
structure Statement where
  /-- The statement. -/
  value : Value
  /-- How it is written. -/
  write : Writer Draft

/-- Whether a statement is written under a setting. -/
def isKept (s : Setting) (v : Value) : Bool :=
  if v.isKind .comment then s.keepComments
  else if v.isKind .blankLine then s.keepBlankLines
  else true

/-- A list without the items at either end that satisfy a test. -/
def trim {α : Type} (p : α → Bool) (xs : List α) : List α :=
  ((xs.dropWhile p).reverse.dropWhile p).reverse

/-- What is written of some statements, given how to look at each of them. -/
def kept {α : Type} (s : Setting) (file : Bool) (value : α → Value) (xs : List α) : List α :=
  let xs := xs.filter fun x => isKept s (value x)
  if file then trim (fun x => (value x).isKind .blankLine) xs else xs

/-- One element of a sequence.  The line break after a comment is left out at the end of a file. -/
def writeOne (endsFile : Bool) (statement : Statement) : Writer Draft :=
  match statement.value with
  | .node .comment field =>
    pure (Draft.lit "#" ++ Draft.word (field .text) ++ if endsFile then [] else Draft.lit "\n")
  | .node .blankLine _ => pure (Draft.lit "\n")
  | _ => statement.write

/-- The statements that are left, after what the state says was written last. -/
def writeFrom (file : Bool) : SeparatorState → List Statement → Writer Draft
  | _, [] => pure []
  | state, statement :: rest => do
    let head ← writeOne (file && rest.isEmpty) statement
    let tail ← writeFrom file (SeparatorState.after statement.value) rest
    return (if state.needsSeparator then Draft.separator else []) ++ head ++ tail

/-- A sequence of statements, of a body or of a whole file. -/
def write (file : Bool) (statements : List Statement) : Writer Draft := do
  writeFrom file .start (kept (← read) file Statement.value statements)

/-- The state in which a body leaves the sequence: whether the keyword that closes it needs a
separator before it. -/
def finalState (s : Setting) (body : Value) : Except Fault SeparatorState := do
  return SeparatorState.afterAll (kept s false id (← body.bodyStatements))

/-- A body after a header and before a closing keyword. -/
def clause (body : FieldRendition) : Writer Draft := do
  let statements ← body.write (.body false)
  let final ← finalState (← read) body.value
  return Draft.separator ++ statements ++ if final.needsSeparator then Draft.separator else []

end Sequence
end TerseRuby
