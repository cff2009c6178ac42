/-!
# Hexadecimal digits of a fixed width

Escapes in literals, in JSON text and in messages all write a code point with a fixed number of
hexadecimal digits; they differ in the case of the letters and in the width.
-/

set_option autoImplicit false

namespace TerseRuby
namespace Hex

/-- The digit for a value below sixteen, with small letters. -/
def lowerDigit (n : Nat) : Char :=
  if n < 10 then Char.ofNat ('0'.toNat + n) else Char.ofNat ('a'.toNat + (n - 10))

/-- The digit for a value below sixteen, with capital letters. -/
def upperDigit (n : Nat) : Char :=
  if n < 10 then Char.ofNat ('0'.toNat + n) else Char.ofNat ('A'.toNat + (n - 10))

/-- The lowest `width` hexadecimal digits of `n`, most significant first. -/
def fixed (digit : Nat → Char) : (width : Nat) → (n : Nat) → List Char
  | 0, _ => []
  | width + 1, n => fixed digit width (n / 16) ++ [digit (n % 16)]

/-- `fixed` with small letters. -/
def lower (width n : Nat) : List Char := fixed lowerDigit width n

/-- `fixed` with capital letters. -/
def upper (width n : Nat) : List Char := fixed upperDigit width n

/-- The value of a hexadecimal digit, in either case. -/
def value? (c : Char) : Option Nat :=
  if '0' ≤ c && c ≤ '9' then some (c.toNat - '0'.toNat)
  else if 'a' ≤ c && c ≤ 'f' then some (c.toNat - 'a'.toNat + 10)
  else if 'A' ≤ c && c ≤ 'F' then some (c.toNat - 'A'.toNat + 10)
  else none

/-- The value of a run of digits, most significant first; `none` if one of them is no digit. -/
def valueOf? (digits : List Char) : Option Nat :=
  digits.foldl (fun acc c => do return (← acc) * 16 + (← value? c)) (some 0)

@[simp] theorem length_fixed (digit : Nat → Char) (width n : Nat) :
    (fixed digit width n).length = width := by
  induction width generalizing n with
  | zero => rfl
  | succ width ih => simp [fixed, ih]

theorem forall_mem_fixed {digit : Nat → Char} {p : Char → Prop}
    (hdigit : ∀ n, n < 16 → p (digit n)) {width n : Nat} : ∀ c ∈ fixed digit width n, p c := by
  induction width generalizing n with
  | zero => exact List.forall_mem_nil _
  | succ width ih =>
    rw [fixed, List.forall_mem_append, List.forall_mem_singleton]
    exact ⟨ih, hdigit _ (Nat.mod_lt n (by decide))⟩

theorem valueOf?_concat (digits : List Char) (c : Char) :
    valueOf? (digits ++ [c]) = do return (← valueOf? digits) * 16 + (← value? c) := by
  rw [valueOf?, List.foldl_append]
  rfl

/-- Digits of a fixed width are read back, if they are enough for the number. -/
theorem valueOf?_fixed {digit : Nat → Char} (hdigit : ∀ n, n < 16 → value? (digit n) = some n)
    {width n : Nat} (h : n < Nat.pow 16 width) : valueOf? (fixed digit width n) = some n := by
  induction width generalizing n with
  | zero =>
    have hn : n = 0 := Nat.lt_one_iff.mp h
    rw [hn]
    rfl
  | succ width ih =>
    have hsplit : Nat.pow 16 (width + 1) = 16 * Nat.pow 16 width := Nat.mul_comm _ 16
    have hfront : n / 16 < Nat.pow 16 width := Nat.div_lt_of_lt_mul (hsplit ▸ h)
    rw [fixed, valueOf?_concat, ih hfront, hdigit _ (Nat.mod_lt _ (by decide))]
    exact congrArg some (Nat.div_add_mod' n 16)

theorem valueOf?_lower {width n : Nat} (h : n < Nat.pow 16 width) :
    valueOf? (lower width n) = some n :=
  valueOf?_fixed (by decide) h

theorem valueOf?_upper {width n : Nat} (h : n < Nat.pow 16 width) :
    valueOf? (upper width n) = some n :=
  valueOf?_fixed (by decide) h

end Hex
end TerseRuby
