import TerseRuby.Json.Token

/-!
# Reading JSON text

The second step of reading is a machine that takes one token at a time.  Its state is the stack of
the containers that are open, and what the innermost one is ready for.  A finished value goes into
the container on top of the stack, so reading the tokens of a whole document has the same effect
whatever surrounds it: it delivers the document to the stack.  The text is accepted if, after its
last token, exactly one document has been delivered to the empty stack.

When a key is repeated in an object the last value counts.

* `Json.Frame`: an open container;
* `Json.State`: where the machine stands;
* `Json.step?`: one token;
* `Json.parse?`: a whole text.
-/

set_option autoImplicit false

namespace TerseRuby
namespace Json

variable {σ : Type}

/-- A container that has been opened and not yet closed. -/
inductive Frame (σ : Type := String) where
  /-- A list with the items read so far, the latest first. -/
  | array (items : List (Json σ))
  /-- An object with the entries read so far, and the key whose value is being read. -/
  | object (entries : List (σ × Json σ)) (key : σ)
  deriving Repr

/-- What the machine is ready for. -/
inductive State (σ : Type := String) where
  /-- A value: at the start, after a colon, or after a comma in a list. -/
  | value (stack : List (Frame σ))
  /-- The first item of a list, or its end. -/
  | firstItem (stack : List (Frame σ))
  /-- The first key of an object, or its end. -/
  | firstKey (stack : List (Frame σ))
  /-- A key, after a comma in an object. -/
  | nextKey (entries : List (σ × Json σ)) (stack : List (Frame σ))
  /-- The colon after a key. -/
  | colon (entries : List (σ × Json σ)) (key : σ) (stack : List (Frame σ))
  /-- A comma or the end of the list. -/
  | afterItem (items : List (Json σ)) (stack : List (Frame σ))
  /-- A comma or the end of the object. -/
  | afterEntry (entries : List (σ × Json σ)) (stack : List (Frame σ))
  /-- Nothing more: the document is complete. -/
  | done (d : Json σ)
  deriving Repr

variable [DecidableEq σ]

/-- Hand a finished value to the innermost open container. -/
def deliver (d : Json σ) : List (Frame σ) → State σ
  | [] => .done d
  | .array items :: stack => .afterItem (d :: items) stack
  | .object entries key :: stack => .afterEntry (insertEntry key d entries) stack

/-- The state after a token that may begin a value. -/
def beginValue? (stack : List (Frame σ)) : Token σ → Option (State σ)
  | .atom s => some (deliver (.scalar s) stack)
  | .openArray => some (.firstItem stack)
  | .openObject => some (.firstKey stack)
  | _ => none

/-- The state after one token, or `none` where the grammar does not allow it. -/
def step? : State σ → Token σ → Option (State σ)
  | .value stack, token => beginValue? stack token
  | .firstItem stack, .closeArray => some (deliver (.array []) stack)
  | .firstItem stack, token => beginValue? (.array [] :: stack) token
  | .firstKey stack, .closeObject => some (deliver (.object []) stack)
  | .firstKey stack, .atom (.str key) => some (.colon [] key stack)
  | .nextKey entries stack, .atom (.str key) => some (.colon entries key stack)
  | .colon entries key stack, .colon => some (.value (.object entries key :: stack))
  | .afterItem items stack, .comma => some (.value (.array items :: stack))
  | .afterItem items stack, .closeArray => some (deliver (.array items.reverse) stack)
  | .afterEntry entries stack, .comma => some (.nextKey entries stack)
  | .afterEntry entries stack, .closeObject => some (deliver (.object entries) stack)
  | _, _ => none

/-- The state after a list of tokens. -/
def run? : State σ → List (Token σ) → Option (State σ)
  | state, [] => some state
  | state, token :: rest => do run? (← step? state token) rest

/-- Tokens can be taken in two parts. -/
theorem run?_append (state : State σ) (first second : List (Token σ)) :
    run? state (first ++ second) = (run? state first).bind fun s => run? s second := by
  induction first generalizing state with
  | nil => rfl
  | cons token rest ih =>
    cases h : step? state token with
    | none => simp [run?, h]
    | some next => simp [run?, h, ih]

/-- The document a text denotes, if it is JSON text. -/
def parse? [CodedText σ] (text : String) : Option (Json σ) := do
  let tokens ← tokens? text.toList
  match ← run? (.value []) tokens with
  | .done d => some d
  | _ => none

end Json
end TerseRuby
