import TerseRuby.Fault
import TerseRuby.Literal.String

/-!
# Interpolated strings

An interpolated string is a row of literal runs and slots.  Neighbouring runs are merged first, so
that the text depends only on the characters between two slots and not on how they were cut up, and
so that a number sign at the end of a run is judged by what really comes after it: another
character, a slot, or the closing quote.

How a slot is written is left open.  `Literal.segments` settles the parts and refuses what is
neither run nor slot before any slot is written, and `Literal.splice` writes the segments in any
monad, calling the given writer once for each slot, in order.
-/

set_option autoImplicit false

namespace TerseRuby
namespace Literal

universe u

/-- A part of an interpolated string, whose slots hold something of type `σ`. -/
inductive Part (σ : Type u) where
  /-- A run of characters. -/
  | run (text : List Char)
  /-- A value of the given type in the place of a run. -/
  | foreign (typeName : String)
  /-- A slot. -/
  | slot (content : σ)
  /-- A part of any other kind, which a string cannot have. -/
  | other (kind : String)

/-- A settled part of an interpolated string. -/
inductive Segment (σ : Type u) where
  /-- All characters up to the next slot or the end. -/
  | run (text : List Char)
  /-- A slot. -/
  | slot (content : σ)

variable {σ : Type u}

/-- Neighbouring runs that are being merged. -/
structure Pending where
  /-- The characters so far. -/
  text : List Char
  /-- The number of runs so far. -/
  runs : Nat
  /-- The first value that was no run: its type, and the number of runs before it. -/
  foreign : Option (String × Nat)

namespace Pending

/-- Nothing yet. -/
def empty : Pending := ⟨[], 0, none⟩

/-- One more run. -/
def add (p : Pending) (text : List Char) : Pending := ⟨p.text ++ text, p.runs + 1, p.foreign⟩

/-- One more value that is no run. -/
def spoil (p : Pending) (typeName : String) : Pending :=
  ⟨p.text, p.runs + 1, p.foreign.or (some (typeName, p.runs))⟩

/-- The segment that the runs make, if there were any. -/
def flush (p : Pending) : Except Fault (List (Segment σ)) :=
  match p.foreign with
  | some (typeName, before) => .error (.notText typeName before 0)
  | none => .ok (if p.runs == 0 then [] else [.run p.text])

end Pending

/-- The segments of some parts after pending runs.  The failure is the first part that is neither
run nor slot, or a run that is no text once the runs around it are merged. -/
def segmentsAfter : Pending → List (Part σ) → Except Fault (List (Segment σ))
  | pending, [] => pending.flush
  | pending, .run text :: rest => segmentsAfter (pending.add text) rest
  | pending, .foreign typeName :: rest => segmentsAfter (pending.spoil typeName) rest
  | pending, .slot content :: rest => do
    let run ← pending.flush
    return run ++ .slot content :: (← segmentsAfter .empty rest)
  | _, .other kind :: _ => .error (.unsupported kind (some .notStringPart))

/-- The parts with neighbouring runs merged. -/
def segments (parts : List (Part σ)) : Except Fault (List (Segment σ)) :=
  segmentsAfter .empty parts

/-- What comes after a run: the number sign of a slot, or the closing quote. -/
def afterRun (rest : List (Segment σ)) : List Char := if rest.isEmpty then ['"'] else ['#']

/-- The text of segments, without the quotes.  `write` gives the pieces of one slot's text, and
`embed` turns literal characters into pieces. -/
def spliceSegments {m : Type → Type} [Monad m] {π : Type} (embed : List Char → List π)
    (write : σ → m (List π)) : List (Segment σ) → m (List π)
  | [] => pure []
  | .run text :: rest => do
    let tail ← spliceSegments embed write rest
    return embed (escape (afterRun rest) text) ++ tail
  | .slot content :: rest => do
    let inner ← write content
    let tail ← spliceSegments embed write rest
    return embed ['#', '\x7b'] ++ inner ++ embed ['\x7d'] ++ tail

/-- The text of segments between double quotes. -/
def splice {m : Type → Type} [Monad m] {π : Type} (embed : List Char → List π)
    (write : σ → m (List π)) (parts : List (Segment σ)) : m (List π) := do
  return embed ['"'] ++ (← spliceSegments embed write parts) ++ embed ['"']

end Literal
end TerseRuby
