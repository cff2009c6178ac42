import TerseRuby.Literal.String

/-!
# Symbols, labels and names

A symbol is written bare, after a colon, when it is spelled like something that has a name: an
identifier, possibly with a question mark, an exclamation mark or an equals sign at its end, an
instance, class or global variable, or an operator method.  Any other symbol is quoted.

* `Literal.isIdentifier`: word characters, the first of which is no digit;
* `Literal.isBareSymbol`: the spellings that need no quotes;
* `Literal.symbol`: the literal;
* `Literal.label?`: the form of a symbol that is a key, which only identifiers have.
-/

set_option autoImplicit false

namespace TerseRuby
namespace Literal

/-- Word characters, the first of which is no decimal digit. -/
def isIdentifier : List Char → Bool
  | [] => false
  | c :: rest => CharClass.isNameStart c && rest.all CharClass.isWord

theorem isWord_of_isIdentifier {text : List Char} (h : isIdentifier text = true) :
    ∀ c ∈ text, CharClass.isWord c = true := by
  cases text with
  | nil => cases h
  | cons c rest =>
    obtain ⟨hc, hrest⟩ := Bool.and_eq_true_iff.mp h
    exact List.forall_mem_cons.mpr
      ⟨(Bool.and_eq_true_iff.mp hc).1, List.all_eq_true.mp hrest⟩

/-- The characters that a method name may have after an identifier. -/
def isMethodSuffix (c : Char) : Bool := c == '?' || c == '!' || c == '='

/-- An identifier, with one method suffix or without. -/
def isMethodName (text : List Char) : Bool :=
  isIdentifier text || (text.getLast?.any isMethodSuffix && isIdentifier text.dropLast)

/-- An instance, class or global variable. -/
def isVariableName : List Char → Bool
  | '@' :: '@' :: rest => isIdentifier rest
  | '@' :: rest => isIdentifier rest
  | '$' :: rest => isIdentifier rest
  | _ => false

/-- The operators that are names of methods. -/
def operatorNames : List (List Char) :=
  ["[]", "[]=", "**", "+", "-", "+@", "-@", "*", "/", "%", "~", "!", "^", "&", "|", "<=>", "==",
    "===", "=~", "!=", "!~", "<<", ">>", "<", "<=", ">", ">="].map String.toList

/-- Whether a symbol needs no quotes. -/
def isBareSymbol (text : List Char) : Bool :=
  isMethodName text || isVariableName text || operatorNames.contains text

/-- A symbol literal. -/
def symbol (text : List Char) : List Char :=
  if isBareSymbol text then ':' :: text else ':' :: doubleQuoted text

/-- The label that stands for a symbol in the place of a key. -/
def label? (text : List Char) : Option (List Char) :=
  if isIdentifier text then some (text ++ [':']) else none

end Literal
end TerseRuby
