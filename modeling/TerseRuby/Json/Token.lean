import TerseRuby.Json.Basic
import TerseRuby.Character.Hex

/-!
# The tokens of JSON text

JSON text is read in two steps, and this is the first: the text is cut into tokens, and blanks
between them are dropped.  Because the grammar never lets two values stand side by side, a cut in
a wrong place (as in `01`, which gives two numbers) can never go unnoticed in the second step.

A text is opened and closed by double quotes, holds no raw control character, and knows the usual
escapes.  Two escaped surrogates that make a pair stand for one character, and any other stands for
itself; it is refused only where texts are made of characters alone.  The words `NaN`, `Infinity`
and `-Infinity` are numbers.

* `Json.Token`: punctuation, texts, numbers and words;
* `Json.scanText`: the rest of a text after its opening quote, each escape by itself;
* `Json.nextToken?`: the token at the front;
* `Json.tokens?`: all tokens of a text.
-/

set_option autoImplicit false

namespace TerseRuby
namespace Json

variable {σ : Type}

/-- A token of JSON text. -/
inductive Token (σ : Type := String) where
  /-- An opening bracket. -/
  | openArray
  /-- A closing bracket. -/
  | closeArray
  /-- An opening brace. -/
  | openObject
  /-- A closing brace. -/
  | closeObject
  /-- A comma. -/
  | comma
  /-- A colon. -/
  | colon
  /-- A number, a text or a word. -/
  | atom (s : Scalar σ)
  deriving DecidableEq, Repr

/-- Blanks that may stand between tokens. -/
def isBlank (c : Char) : Bool := c == ' ' || c == '\t' || c == '\n' || c == '\r'

/-! ## Texts -/

/-- The character of a one-letter escape. -/
def shortEscape? : Char → Option Char
  | '"' => some '"'
  | '\\' => some '\\'
  | '/' => some '/'
  | 'b' => some (Char.ofNat 8)
  | 'f' => some (Char.ofNat 12)
  | 'n' => some '\n'
  | 'r' => some '\r'
  | 't' => some '\t'
  | _ => none

/-- What stands between the quotes of a text, up to the closing one, and what follows.  Every escape
gives a code point of its own. -/
def scanText : List Char → Option (List CodePoint × List Char)
  | '"' :: rest => some ([], rest)
  | '\\' :: 'u' :: a :: b :: c :: d :: rest => do
    let code ← Hex.valueOf? [a, b, c, d]
    let (text, rest) ← scanText rest
    return (.ofValue code :: text, rest)
  | '\\' :: letter :: rest => do
    let c ← shortEscape? letter
    let (text, rest) ← scanText rest
    return (.char c :: text, rest)
  | c :: rest => do
    if c.toNat < 0x20 || c == '\\' then none
    else
      let (text, rest) ← scanText rest
      return (.char c :: text, rest)
  | [] => none

/-! ## Tokens -/

/-- The words, each with the value it stands for. -/
def words : List (List Char × Scalar σ) :=
  [("null".toList, .null), ("true".toList, .bool true), ("false".toList, .bool false),
   ("NaN".toList, .float .nan), ("Infinity".toList, .float (.infinity false)),
   ("-Infinity".toList, .float (.infinity true))]

/-- The word at the front, and what follows it. -/
def scanWord (text : List Char) : Option (Scalar σ × List Char) :=
  words.findSome? fun (word, value) =>
    if word.isPrefixOf text then some (value, text.drop word.length) else none

/-- The number at the front: whole when it has neither point nor exponent. -/
def scanNumber (text : List Char) : Option (Scalar σ × List Char) := do
  let (n, rest) ← Decimal.scanNumeral text
  return (if n.isWhole then .int n.toInt else .float (Double.ofNumeral n), rest)

variable [CodedText σ]

/-- The token at the front, and what follows it. -/
def nextToken? : List Char → Option (Token σ × List Char)
  | '[' :: rest => some (.openArray, rest)
  | ']' :: rest => some (.closeArray, rest)
  | '\x7b' :: rest => some (.openObject, rest)
  | '\x7d' :: rest => some (.closeObject, rest)
  | ',' :: rest => some (.comma, rest)
  | ':' :: rest => some (.colon, rest)
  | '"' :: rest => do
    let (text, rest) ← scanText rest
    let s ← CodedText.ofCodes? (CodePoint.joined text)
    return (.atom (.str s), rest)
  | text => do
    let (value, rest) ← scanWord text <|> scanNumber text
    return (.atom value, rest)

/-- All tokens of a text, if at most `fuel` steps cut it up.  A step takes at least one character,
so the length of the text suffices. -/
def tokensWithin : (fuel : Nat) → List Char → Option (List (Token σ))
  | _, [] => some []
  | 0, _ :: _ => none
  | fuel + 1, c :: rest =>
    if isBlank c then tokensWithin fuel rest
    else do
      let (token, rest) ← nextToken? (c :: rest)
      let tokens ← tokensWithin fuel rest
      return token :: tokens

/-- All tokens of a text. -/
def tokens? (text : List Char) : Option (List (Token σ)) := tokensWithin text.length text

end Json
end TerseRuby
