import TerseRuby.Render.Draft
import TerseRuby.Tree.Key

/-!
# The setting in which trees are written

Writing a tree depends on what is fixed from outside for a whole subtree: the trivia that is to be
kept, whether blocks are written with braces, and when two names are the same (`Setting`).  And it
depends on the local variables that the program has assigned so far (`Locals`), because a bare name
that is also a variable would be read as the variable.  A `Writer` reads the first, updates the
second, and may fail.

The rules write drafts, and `Writer.built` joins one.  They never call each other for a child: they
are given, for each field of a node, a `FieldRendition`, which is the value of the field and, for
every `Role` a value can play, the writer that writes it in that role.  `Render/Node.lean` ties the
knot by recursion on the tree.
-/

set_option autoImplicit false

namespace TerseRuby

/-- What is fixed from outside while a tree is written. -/
structure Setting where
  /-- Whether comments are kept. -/
  keepComments : Bool
  /-- Whether blank lines are kept. -/
  keepBlankLines : Bool
  /-- Whether blocks are written with braces, because a `do` would be taken by a loop or a jump. -/
  braceBlocks : Bool
  /-- Whether all not-a-numbers in the tree are one value. -/
  oneNaN : Bool
  deriving DecidableEq, Repr

/-- The setting at the top of a program given as a tree, in which each not-a-number is a value of
its own. -/
def Setting.ofOptions (o : Options) : Setting :=
  ⟨!o.stripComments, !o.stripBlankLines, false, false⟩

/-- The setting at the top of a program read from text, in which not-a-number is a constant that
stands for the same value everywhere. -/
def Setting.ofText (o : Options) : Setting := { Setting.ofOptions o with oneNaN := true }

/-- The names of the local variables assigned so far, the latest first. -/
abbrev Locals := List Value

/-- Whether two names are the same under a setting. -/
def Setting.sameName (s : Setting) (a b : Value) : Bool :=
  a.sameBy (if s.oneNaN then Scalar.sameOrNaN else Scalar.same) b

/-- Whether a name is that of a local variable. -/
def Locals.has (s : Setting) (locals : Locals) (name : Value) : Bool :=
  locals.any fun known => s.sameName known name

/-- A computation that reads the setting, updates the local variables and may fail. -/
abbrev Writer (α : Type) := ReaderT Setting (StateT Locals (Except Fault)) α

namespace Writer

/-- Enter a variable. -/
def declare (name : Value) : Writer Unit := do
  name.checkKey
  modify fun locals => name :: locals

/-- Write in a scope of its own, which starts with the given variables; afterwards those of the
surrounding scope are back. -/
def withLocals {α : Type} (start : Locals → Locals) (w : Writer α) : Writer α := do
  let outer ← get
  set (start outer)
  let result ← w
  set outer
  return result

/-- Write the body of a definition, which sees no variables from outside. -/
def inNewScope {α : Type} (w : Writer α) : Writer α := withLocals (fun _ => []) w

/-- Write a block, which sees the variables around it and keeps its own. -/
def inInnerScope {α : Type} (w : Writer α) : Writer α := withLocals id w

/-- Write with blocks in braces, or not. -/
def withBraces {α : Type} (braces : Bool) (w : Writer α) : Writer α :=
  withReader (fun s => { s with braceBlocks := braces }) w

/-- The text of what is drafted. -/
def built (w : Writer Draft) : Writer Text := do (← w).build

end Writer

/-- The part that a value plays in the node it belongs to. -/
inductive Role where
  /-- An expression, without parentheses around it. -/
  | expression
  /-- A statement. -/
  | statement
  /-- The body of a construct, or of a whole file. -/
  | body (file : Bool)
  /-- An element of an argument list, an array or a list of conditions. -/
  | argument
  /-- An element of a hash or of named arguments. -/
  | hashElement
  /-- A branch of a case. -/
  | whenClause
  /-- A branch that handles exceptions. -/
  | rescueClause
  /-- The branch taken otherwise, which may be absent. -/
  | elseBranch
  /-- The branch taken otherwise, where it may also be a further condition. -/
  | alternate
  /-- The branch that always runs. -/
  | ensureClause
  /-- A parameter list. -/
  | parameters
  /-- A parameter without a default, after the given sign. -/
  | parameter (sign : String)
  /-- A parameter with a default. -/
  | optionalParameter
  /-- A parameter given by name. -/
  | keywordParameter
  /-- A slot of an interpolated string. -/
  | slot
  /-- The variable of a loop. -/
  | loopVariable
  /-- A block attached to a call. -/
  | block
  deriving DecidableEq, Repr

/-- A value, and the way it is written in every role. -/
structure Rendition where
  /-- The value. -/
  value : Value
  /-- How it is written. -/
  write : Role → Writer Draft

/-- The text of a value in some role, as a draft of its own. -/
def Rendition.text (r : Rendition) (role : Role) : Writer Text := (r.write role).built

/-- What stands in a field: a value, and the elements that it is made of. -/
structure FieldRendition extends Rendition where
  /-- The elements. -/
  elements : List Rendition

namespace FieldRendition

/-- The rendition of a field that a value does not have. -/
def absent : FieldRendition := ⟨⟨.null, fun _ => pure []⟩, []⟩

/-- The elements of a field that has to be made of some. -/
def sequence (r : FieldRendition) : Writer (List Rendition) :=
  if r.value.isCollection then pure r.elements else throw (.notSequence r.value.typeName)

/-- Something is written if the field is present, and nothing otherwise. -/
def ifPresent {α : Type} (r : FieldRendition) (w : Writer (List α)) : Writer (List α) :=
  if r.value.isNull then pure [] else w

end FieldRendition
end TerseRuby
