import TerseRuby.Number.Decimal

/-!
# Complaints of a parser

Source text is read by an external parser, and what it says about text that it cannot read is
passed on.  `Diagnostic.text` puts the known part of the position before the message.  A column is
shown only after a line; colons at the end of the position are dropped, and one blank ends it.
-/

set_option autoImplicit false

namespace TerseRuby

/-- A parser's complaint about a source text. -/
structure Diagnostic where
  /-- What is wrong, in the parser's words. -/
  message : String
  /-- The line where reading failed. -/
  line : Option Int
  /-- The column where reading failed. -/
  column : Option Int
  /-- The file that was read. -/
  file : Option String
  deriving DecidableEq, Repr

namespace Diagnostic

/-- The known parts of the position, each closed by a colon. -/
def places (d : Diagnostic) : List Char :=
  let file :=
    match d.file with
    | some file => if file.isEmpty then [] else file.toList ++ [':']
    | none => []
  let lineAndColumn :=
    match d.line with
    | none => []
    | some line =>
      let column :=
        match d.column with
        | some column => Decimal.intText column ++ [':']
        | none => []
      Decimal.intText line ++ ':' :: column
  file ++ lineAndColumn

/-- The position as it stands before the message: empty if nothing is known. -/
def position (d : Diagnostic) : List Char :=
  if d.places.isEmpty then []
  else (d.places.reverse.dropWhile (· == ':')).reverse ++ [' ']

/-- The complaint with its position. -/
def text (d : Diagnostic) : String := String.ofList d.position ++ d.message

end Diagnostic
end TerseRuby
