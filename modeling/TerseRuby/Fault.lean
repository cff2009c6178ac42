import TerseRuby.Diagnostic
import TerseRuby.Quoted

/-!
# What can go wrong

Reading, rendering and minifying fail for one of the causes listed in `Fault`; `Fault.message` is
the only place that words them.

Most causes concern a tree that does not have the shape the rules expect: a node of a kind that
has no rule where it stands (`Fault.unsupported`, with a `Misplacement` that says why, if there is
something to say), a value that lacks a field a rule asks for, a sequence that is none.  The rest
are unreadable data, a symbol that is no operator, and the complaints of an external parser.
-/

set_option autoImplicit false

namespace TerseRuby

/-- Why a node has no rule in the place where it stands. -/
inductive Misplacement where
  /-- A whole program inside another tree. -/
  | nestedProgram
  /-- A comment or a blank line that is no statement. -/
  | strayTrivia
  /-- A part of an argument list or literal outside of one. -/
  | strayElement
  /-- A value that is no node. -/
  | foreignValue
  /-- Something else where only an else branch may stand. -/
  | notElseBranch
  /-- Something else where only a hash element may stand. -/
  | notHashElement
  /-- Something that a loop cannot assign to. -/
  | notLoopVariable
  /-- A part that an interpolated string cannot have. -/
  | notStringPart
  /-- The name of no kind of node. -/
  | unknownKind
  deriving DecidableEq, Repr

/-- The detail that a message gives in parentheses. -/
def Misplacement.detail : Misplacement → String
  | .nestedProgram => "a program cannot be nested"
  | .strayTrivia => "trivia outside a statement sequence"
  | .strayElement => "only valid inside an argument list or literal"
  | .foreignValue => "not a parse tree node"
  | .notElseBranch => "expected an else branch"
  | .notHashElement => "expected a hash element"
  | .notLoopVariable => "expected a loop variable"
  | .notStringPart => "not allowed inside an interpolated string"
  | .unknownKind => "unknown serialized node type"

/-- The cause of a failure. -/
inductive Fault where
  /-- A node, or a value in the place of one, for which there is no rule. -/
  | unsupported (kind : String) (reason : Option Misplacement)
  /-- Serialized data that does not name the kind of the node. -/
  | missingKind
  /-- A container that was to be looked up by its value. -/
  | unhashable (typeName : String)
  /-- Required fields that were not given, by the name of the record. -/
  | missingFields (record : String) (fields : List String)
  /-- A field that was given and that the record does not have. -/
  | unknownField (record field : String)
  /-- A required entry of serialized data that was not given. -/
  | missingEntry (key : String)
  /-- A place that was asked for in an object, whose entries have none. -/
  | missingPlace (place : Nat)
  /-- A value that lacks a field or an operation that was asked of it. -/
  | missingMember (typeName member : String)
  /-- A value whose fields were asked for and which has none. -/
  | notRecord
  /-- A value that was to be gone through item by item and is no sequence. -/
  | notSequence (typeName : String)
  /-- A value whose elements were to be counted and which has none. -/
  | noLength (typeName : String)
  /-- A value whose beginning was asked for and which has no elements. -/
  | notIndexed (typeName : String)
  /-- A value that was to be written as it is and is no text; with the number of pieces written
  before it, and of blanks before it that may be left out. -/
  | notText (typeName : String) (pieces blanks : Nat)
  /-- A value that was to be written after a sign and is no text. -/
  | notAppendable (typeName : String)
  /-- A value that was to be spelled as a symbol and is no text. -/
  | notSpelling (typeName : String)
  /-- A value that was to be compared with one of another type, and that no order relates to it. -/
  | notOrdered (left right : String)
  /-- A value that was to be looked for in a text and is no text. -/
  | notSubtext (typeName : String)
  /-- A text of the given length that was to be written by its code, which one character has. -/
  | notCharacter (length : Nat)
  /-- A value that was to be written as a floating-point number and is no number. -/
  | notNumber (typeName : String)
  /-- The first or last character of an empty text was asked for. -/
  | emptyText
  /-- A whole number outside the range of floating-point numbers. -/
  | numberTooLarge
  /-- A whole number with more digits than are written. -/
  | numberTooLong
  /-- A symbol that is no operator. -/
  | unknownOperator (symbol : String)
  /-- Text that is not JSON. -/
  | malformedJson
  /-- A tree of another kind where a program was expected. -/
  | notProgram (kind : String)
  /-- Source text that the parser could not read. -/
  | unparsable (diagnostic : Diagnostic)
  deriving DecidableEq, Repr

namespace Fault

/-- The message for a kind without a rule; an empty detail is not shown. -/
def unsupportedMessage (kind : String) (detail : Option String) : String :=
  let note :=
    match detail with
    | some detail => if detail.isEmpty then "" else " (" ++ detail ++ ")"
    | none => ""
  "No rendering rule for node kind '" ++ kind ++ "'" ++ note

/-- Quoted names as an enumeration: two are joined by a conjunction, and more also by commas. -/
def enumeration (names : List String) : String :=
  let quoted := names.map fun name => "'" ++ name ++ "'"
  match quoted.reverse with
  | [] => ""
  | [only] => only
  | [last, first] => first ++ " and " ++ last
  | last :: others => String.intercalate ", " others.reverse ++ ", and " ++ last

/-- The message for required fields that were not given. -/
def missingFieldsMessage (record : String) (fields : List String) : String :=
  let noun := if fields.length == 1 then "argument" else "arguments"
  record ++ ".__init__() missing " ++ String.ofList (Decimal.natText fields.length)
    ++ " required positional " ++ noun ++ ": " ++ enumeration fields

/-- The message of a failure. -/
def message : Fault → String
  | .unsupported kind reason => unsupportedMessage kind (reason.map Misplacement.detail)
  | .missingKind => "Missing '_type' field in serialized node"
  | .unhashable typeName => "unhashable type: '" ++ typeName ++ "'"
  | .missingFields record fields => missingFieldsMessage record fields
  | .unknownField record field =>
    record ++ ".__init__() got an unexpected keyword argument '" ++ field ++ "'"
  | .missingEntry key => key
  | .missingPlace place => String.ofList (Decimal.natText place)
  | .missingMember typeName member =>
    "'" ++ typeName ++ "' object has no attribute '" ++ member ++ "'"
  | .notRecord => "must be called with a dataclass type or instance"
  | .notSequence typeName => "'" ++ typeName ++ "' object is not iterable"
  | .noLength typeName => "object of type '" ++ typeName ++ "' has no len()"
  | .notIndexed typeName => "'" ++ typeName ++ "' object is not subscriptable"
  | .notText typeName pieces _ =>
    "sequence item " ++ String.ofList (Decimal.natText pieces) ++ ": expected str instance, "
      ++ typeName ++ " found"
  | .notAppendable typeName => "can only concatenate str (not \"" ++ typeName ++ "\") to str"
  | .notSpelling typeName => "expected string or bytes-like object, got '" ++ typeName ++ "'"
  | .notOrdered left right =>
    "'<' not supported between instances of '" ++ left ++ "' and '" ++ right ++ "'"
  | .notSubtext typeName =>
    "'in <string>' requires string as left operand, not " ++ typeName
  | .notCharacter length =>
    "ord() expected a character, but string of length " ++ String.ofList (Decimal.natText length)
      ++ " found"
  | .notNumber typeName => "must be real number, not " ++ typeName
  | .emptyText => "string index out of range"
  | .numberTooLarge => "int too large to convert to float"
  | .numberTooLong =>
    "Exceeds the limit (" ++ String.ofList (Decimal.natText Decimal.digitLimit)
      ++ " digits) for integer string conversion; "
      ++ "use sys.set_int_max_str_digits() to increase the limit"
  | .unknownOperator symbol => "No precedence descriptor for operator " ++ Quoted.encode symbol
  | .malformedJson => "malformed JSON text"
  | .notProgram kind => "Expected Program, got " ++ kind
  | .unparsable diagnostic => diagnostic.text

end Fault
end TerseRuby
