/-!
# Sets of characters given by their boundaries

A character class of Unicode is a few hundred intervals of code points.  `CharSet` keeps such a
class as the increasing list of the code points at which membership flips: a character is in the
class exactly when an odd number of boundaries lie at or below it.  The scan stops at the first
boundary above the character, so the ASCII range, where nearly all questions are asked, is
answered within a handful of steps.
-/

set_option autoImplicit false

namespace TerseRuby

/-- A set of characters, as the increasing list of code points where membership flips. -/
structure CharSet where
  /-- The first member, then the first non-member after it, then the next member, and so on. -/
  boundaries : List Nat
  deriving Repr

namespace CharSet

/-- Whether the number of boundaries at or below `code` is odd. -/
def inside : List Nat → Nat → Bool
  | [], _ => false
  | b :: rest, code => if code < b then false else !inside rest code

/-- Membership of a character. -/
def contains (s : CharSet) (c : Char) : Bool := inside s.boundaries c.toNat

end CharSet
end TerseRuby
