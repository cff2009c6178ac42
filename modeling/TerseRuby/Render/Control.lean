import TerseRuby.Render.Arguments
import TerseRuby.Render.Sequence

/-!
# Conditionals, loops, exceptions and jumps

All constructs here are made of a header, bodies between separators, and one `end`.

A conditional that is a statement, has a single statement for its body and nothing otherwise, is
shorter with the condition after the statement.  That form is used only if neither part contains a
construct with an `end` of its own, and if the condition assigns no local variable, because the
statement would then be read before the variable is known (`Rules.isPostfix`).

In the header of a loop and in the argument of a jump, blocks are written with braces.
-/

set_option autoImplicit false

namespace TerseRuby
namespace Rules

open Sequence (clause)

/-! ## Conditionals -/

/-- The else branch that a value is, or nothing where there is none. -/
def elseBranch (self : Value) (c : Field → FieldRendition) : Writer Draft :=
  if self.isNull then pure []
  else if self.isKind .elseBranch then do return Draft.lit "else" ++ (← clause (c .statements))
  else throw (.unsupported self.typeName (some .notElseBranch))

/-- A condition with its branch, and what comes otherwise. -/
def conditional (keyword : String) (c : Field → FieldRendition) : Writer Draft := do
  let predicate ← (c .predicate).text .expression
  let body ← clause (c .statements)
  let otherwise ← (c .alternate).write .alternate
  return Draft.lit keyword ++ Draft.afterKeyword predicate ++ body ++ otherwise

/-- What comes otherwise: a further condition or an else branch. -/
def alternate (self : Value) (c : Field → FieldRendition) : Writer Draft :=
  if self.isKind .ifThen then conditional "elsif" c else elseBranch self c

/-- A conditional. -/
def ifThen (c : Field → FieldRendition) : Writer Draft := do
  return (← conditional "if" c) ++ Draft.lit "end"

/-- A negated conditional. -/
def unlessThen (c : Field → FieldRendition) : Writer Draft := do
  let predicate ← (c .predicate).text .expression
  let body ← clause (c .statements)
  let otherwise ← (c .alternate).write .elseBranch
  return Draft.lit "unless" ++ Draft.afterKeyword predicate ++ body ++ otherwise ++ Draft.lit "end"

/-- The one statement of a body, if there is just one and it is no comment or blank line. -/
def onlyStatement? (s : Setting) (body : Value) : Except Fault (Option Value) := do
  match Sequence.kept s false id (← body.bodyStatements) with
  | [statement] => return if statement.inGroup Kind.isTrivia then none else some statement
  | _ => return none

/-- Whether a value contains a block construct; only something that has fields can be asked. -/
def checkBlock (v : Value) : Except Fault Bool :=
  if v.isRecord then .ok v.containsBlock else .error .notRecord

/-- Whether a conditional with the given fields can be written with the condition at the end. -/
def isPostfix (s : Setting) (field : Field → Value) : Except Fault Bool := do
  if !(field .alternate).isNull then return false
  match ← onlyStatement? s (field .statements) with
  | none => return false
  | some statement =>
    if ← checkBlock statement then return false
    if ← checkBlock (field .predicate) then return false
    return !(field .predicate).assignsLocal

/-- A conditional with the condition at the end. -/
def postfixConditional (keyword : String) (c : Field → FieldRendition) : Writer Draft := do
  let body ← (c .statements).write (.body false)
  let predicate ← (c .predicate).text .expression
  return body ++ Draft.lit " " ++ Draft.lit keyword ++ Draft.afterKeyword predicate

/-! ## Case -/

/-- A branch of a case. -/
def whenClause (self : Value) (c : Field → FieldRendition) : Writer Draft := do
  require self .conditions
  let conditions ← arguments (← (c .conditions).sequence) none
  require self .statements
  return Draft.lit "when" ++ Draft.afterKeyword conditions ++ (← clause (c .statements))

/-- A case distinction. -/
def caseOf (c : Field → FieldRendition) : Writer Draft := do
  let subject ← (c .predicate).ifPresent (Draft.afterKeyword <$> (c .predicate).text .expression)
  let branches ← (← (c .conditions).sequence).mapM (·.write .whenClause)
  let otherwise ← (c .alternate).write .elseBranch
  return Draft.lit "case" ++ subject ++ Draft.separator ++ branches.flatten ++ otherwise
    ++ Draft.lit "end"

/-! ## Loops -/

/-- A loop with a condition. -/
def loop (keyword : String) (c : Field → FieldRendition) : Writer Draft := do
  let predicate ← Writer.withBraces true ((c .predicate).text .expression)
  let body ← clause (c .statements)
  return Draft.lit keyword ++ Draft.afterKeyword predicate ++ body ++ Draft.lit "end"

/-- The variable of a loop; a local one is entered. -/
def loopVariable (self : Value) (c : Field → FieldRendition) : Writer Draft :=
  match self.kind? with
  | some .localRead | some .localWrite => do
    Writer.declare (c .name).value
    return Draft.word (c .name).value
  | some .instanceRead | some .globalRead => pure (Draft.word (c .name).value)
  | _ => throw (.unsupported self.typeName (some .notLoopVariable))

/-- A loop over a collection. -/
def forLoop (c : Field → FieldRendition) : Writer Draft := do
  let index ← (c .index).write .loopVariable
  let collection ← Writer.withBraces true ((c .collection).text .expression)
  let body ← clause (c .statements)
  return Draft.lit "for " ++ index ++ Draft.lit " in " ++ Draft.of collection ++ body
    ++ Draft.lit "end"

/-! ## Exceptions -/

/-- A branch that handles exceptions; the variable an exception is bound to is entered. -/
def rescueClause (self : Value) (c : Field → FieldRendition) : Writer Draft := do
  require self .exceptions
  let exceptions ←
    if (c .exceptions).value.isTrue then do
      pure (Draft.lit " " ++ Draft.of (← arguments (← (c .exceptions).sequence) none))
    else pure []
  let reference ← (c .reference).ifPresent do
    Writer.declare (c .reference).value
    return Draft.lit "=>" ++ Draft.word (c .reference).value
  return Draft.lit "rescue" ++ exceptions ++ reference ++ (← clause (c .statements))

/-- The branch that always runs. -/
def ensureClause (self : Value) (c : Field → FieldRendition) : Writer Draft := do
  require self .statements
  return Draft.lit "ensure" ++ (← clause (c .statements))

/-- Statements with exception handling. -/
def beginBlock (c : Field → FieldRendition) : Writer Draft := do
  let body ← clause (c .statements)
  let rescues ← (← (c .rescueClauses).sequence).mapM (·.write .rescueClause)
  let otherwise ← (c .elseClause).write .elseBranch
  let ensured ← (c .ensureClause).ifPresent ((c .ensureClause).write .ensureClause)
  return Draft.lit "begin" ++ body ++ rescues.flatten ++ otherwise ++ ensured ++ Draft.lit "end"

/-! ## Jumps -/

/-- A jump, with the values it carries. -/
def jump (keyword : String) (c : Field → FieldRendition) : Writer Draft := do
  if (c .arguments).value.isTrue then
    let values ← Writer.withBraces true do arguments (← (c .arguments).sequence) none
    return Draft.lit keyword ++ Draft.afterKeyword values
  else return Draft.lit keyword

end Rules
end TerseRuby
