import TerseRuby.Fault
import TerseRuby.Json.Display

/-!
# Source locations

A parser may note with a node where it read it.  The parts of a location are carried along as they
were given; only showing one looks at them.  `Location.text` shows a place as `file:line:column`,
without the file where none is known.
-/

set_option autoImplicit false

namespace TerseRuby

open CodedText (literal)

/-- The entry of serialized data that names the kind of a node, or says that it is a location. -/
def kindKey {σ : Type} [CodedText σ] : σ := literal "_type"

/-- Where a node was read.  The parts are carried along as they were given. -/
structure Location (σ : Type := String) where
  /-- The first line. -/
  line : Json σ
  /-- The first column. -/
  column : Json σ
  /-- The last line. -/
  endLine : Json σ
  /-- The last column. -/
  endColumn : Json σ
  /-- The file. -/
  file : Json σ
  deriving Repr

namespace Location

/-- The name of the kind of source locations. -/
def kindName : String := "SourceLocation"

/-- The names of the parts of a location. -/
def partNames : List String :=
  ["lineno", "col_offset", "end_lineno", "end_col_offset", "source_file"]

/-- The entries of serialized data that every location has. -/
def requiredEntries : List String := ["lineno", "col_offset"]

section

variable {σ : Type} [DecidableEq σ] [CodedText σ]

/-- The location that the entries of an object describe, null standing for what is not given. -/
def ofEntries (entries : List (σ × Json σ)) : Location σ :=
  let part (key : String) : Json σ := (entries.lookup (literal key)).getD .null
  ⟨part "lineno", part "col_offset", part "end_lineno", part "end_col_offset", part "source_file"⟩

/-- The entries that a location has to have and the object does not give. -/
def missingEntries (entries : List (σ × Json σ)) : List String :=
  requiredEntries.filter fun key => (entries.lookup (literal key)).isNone

/-- The location that serialized data describes. -/
def decode (entries : List (σ × Json σ)) : Except Fault (Location σ) :=
  match missingEntries entries with
  | [] => .ok (ofEntries entries)
  | key :: _ => .error (.missingEntry key)

end

/-- The first entry that no part of a location has the name of. -/
def unknownEntry? (entries : List (String × Json)) : Option String :=
  (entries.map Prod.fst).find? fun key => !partNames.contains key

/-- A new location with the given parts, which all have to be parts of one. -/
def create (entries : List (String × Json)) : Except Fault Location :=
  match unknownEntry? entries, missingEntries entries with
  | some key, _ => .error (.unknownField kindName key)
  | none, [] => .ok (ofEntries entries)
  | none, missing => .error (.missingFields kindName missing)

/-- The parts of a location under their names. -/
def entries {σ : Type} [CodedText σ] (l : Location σ) : List (σ × Json σ) :=
  [(literal "lineno", l.line), (literal "col_offset", l.column),
    (literal "end_lineno", l.endLine), (literal "end_col_offset", l.endColumn),
    (literal "source_file", l.file)]

/-- The serialized form of a location. -/
def toJson {σ : Type} [CodedText σ] (l : Location σ) : Json σ :=
  .object ((kindKey, .str (literal kindName)) :: l.entries)

/-- Equality of locations, part by part, given that of scalars. -/
def sameBy {σ : Type} [DecidableEq σ] (eq : Scalar σ → Scalar σ → Bool) (a b : Location σ) :
    Bool :=
  a.line.sameBy eq b.line && a.column.sameBy eq b.column && a.endLine.sameBy eq b.endLine
    && a.endColumn.sameBy eq b.endColumn && a.file.sameBy eq b.file

/-- A location as it is shown. -/
def text (l : Location) : String :=
  let place := l.line.display ++ ":" ++ l.column.display
  if l.file.isTrue then l.file.display ++ ":" ++ place else place

/-- A location as it is shown, if the numbers in it can be written. -/
def shown (l : Location) : Except Fault String :=
  if l.line.hasLong || l.column.hasLong || (l.file.isTrue && l.file.hasLong) then
    .error .numberTooLong
  else .ok l.text

end Location
end TerseRuby
