import TerseRuby.Character.Class
import TerseRuby.Number.Decimal

/-!
# Digits

What readers and writers of numbers share: which characters are digits, and how the value of a run
of digits (`Decimal.natOf`) and the numeral of a whole number (`Decimal.natText`) behave when
digits are put before or behind others.

* A run of characters of one class is cut off whole where the class ends (`span_append`).
* `Decimal.natOf_append`: digits put behind others shift these; so zeros before digits do not count
  and zeros behind them are factors of ten.
* `Decimal.natOf_natText`: the numeral of a whole number has that number as its value, and no zero
  before it (`Decimal.head_natText_ne`).
-/

set_option autoImplicit false

namespace TerseRuby

theorem span_append {p : Char → Bool} {cs rest : List Char} (hcs : ∀ c ∈ cs, p c = true)
    (hrest : ∀ c, rest.head? = some c → p c = false) :
    (cs ++ rest).takeWhile p = cs ∧ (cs ++ rest).dropWhile p = rest := by
  rw [List.takeWhile_append_of_pos hcs, List.dropWhile_append_of_pos hcs]
  cases rest with
  | nil => simp
  | cons c rest => simp [hrest c rfl]

namespace Decimal

/-- A fact about the ten digits can be checked one by one. -/
theorem forall_isDigit {P : Char → Prop} (h : ∀ c ∈ "0123456789".toList, P c) {c : Char}
    (hc : isDigit c = true) : P c := by
  have hcode : c.toNat < 128 := by
    simp only [isDigit, Bool.and_eq_true, decide_eq_true_eq] at hc
    exact Nat.lt_of_le_of_lt (UInt32.le_iff_toNat_le.mp hc.2) (by decide)
  have check : ∀ n, n < 128 → isDigit (Char.ofNat n) = true →
      Char.ofNat n ∈ "0123456789".toList := by decide
  exact h c (@CharClass.forall_ascii (fun c => isDigit c = true → c ∈ "0123456789".toList)
    check c hcode hc)

theorem isDigit_zero : isDigit '0' = true := by decide

/-! ## Powers of ten -/

theorem tenPow_pos (k : Nat) : 0 < tenPow k := Nat.pow_pos (by omega)

theorem tenPow_add (j k : Nat) : tenPow (j + k) = tenPow j * tenPow k := Nat.pow_add 10 j k

theorem tenPow_succ (k : Nat) : tenPow (k + 1) = tenPow k * 10 := Nat.pow_succ 10 k

/-! ## The value of a run of digits -/

/-- Digits put behind others shift these. -/
theorem natOf_append (front back : List Char) :
    natOf (front ++ back) = natOf front * tenPow back.length + natOf back := by
  have hshift : ∀ (cs : List Char) (n : Nat),
      cs.foldl (fun n c => n * 10 + (c.toNat - '0'.toNat)) n =
        n * tenPow cs.length + natOf cs := by
    intro cs
    induction cs with
    | nil => intro n; exact (Nat.mul_one n).symm
    | cons c cs ih =>
      intro n
      have hcons :
          natOf (c :: cs) = (0 * 10 + (c.toNat - '0'.toNat)) * tenPow cs.length + natOf cs :=
        ih _
      rw [List.foldl_cons, ih, hcons, List.length_cons, tenPow_succ]
      simp only [Nat.add_mul, Nat.zero_mul, Nat.zero_add, Nat.add_assoc, Nat.mul_assoc,
        Nat.mul_comm 10]
  rw [natOf, List.foldl_append, hshift]
  rfl

theorem natOf_concat (digits : List Char) (c : Char) :
    natOf (digits ++ [c]) = natOf digits * 10 + (c.toNat - '0'.toNat) := by
  rw [natOf, List.foldl_append]
  rfl

theorem natOf_zeros (k : Nat) : natOf (List.replicate k '0') = 0 := by
  induction k with
  | zero => rfl
  | succ k ih => rw [List.replicate_succ', natOf_concat, ih]; rfl

theorem natOf_zeros_append (k : Nat) (digits : List Char) :
    natOf (List.replicate k '0' ++ digits) = natOf digits := by
  rw [natOf_append, natOf_zeros, Nat.zero_mul, Nat.zero_add]

theorem natOf_append_zeros (digits : List Char) (k : Nat) :
    natOf (digits ++ List.replicate k '0') = natOf digits * tenPow k := by
  rw [natOf_append, natOf_zeros, List.length_replicate, Nat.add_zero]

/-! ## The numeral of a whole number -/

theorem natOf_natText (n : Nat) : natOf (natText n) = n := by
  have h := Nat.ofDigitChars_ten_toDigits (n := n)
  rw [Nat.ofDigitChars] at h
  rw [natOf, natText]
  simpa only [Nat.mul_comm] using h

theorem isDigit_of_mem_natText {c : Char} {n : Nat} (h : c ∈ natText n) : isDigit c = true := by
  have hdigit := Nat.isDigit_of_mem_toDigits (by decide) (by decide) h
  simpa [Char.isDigit, isDigit, Char.le_def] using hdigit

theorem natText_ne_nil (n : Nat) : natText n ≠ [] := Nat.toDigits_ne_nil

/-- The numeral of a positive number does not begin with a zero. -/
theorem head_natText_ne {n : Nat} (hn : n ≠ 0) : (natText n).head? ≠ some '0' := by
  induction n using Nat.strongRecOn with
  | ind n ih =>
    by_cases hlt : n < 10
    · have check : ∀ n < 10, n ≠ 0 → [n.digitChar].head? ≠ some '0' := by decide
      rw [natText, Nat.toDigits_of_lt_base hlt]
      exact check n hlt hn
    · -- The front digits are those of a tenth of the number.
      have hfront : natText n = natText (n / 10) ++ [(n % 10).digitChar] :=
        Nat.toDigits_of_base_le (by omega) (by omega)
      rw [hfront, List.head?_append,
        Option.or_of_isSome (List.isSome_head?.mpr (natText_ne_nil (n / 10)))]
      exact ih (n / 10) (by omega) (by omega)

theorem natText_mul_ten {n : Nat} (hn : n ≠ 0) : natText (n * 10) = natText n ++ ['0'] := by
  have h := Nat.toDigits_append_toDigits (b := 10) (d := 0) (by omega) (Nat.pos_of_ne_zero hn)
    (by omega)
  rw [Nat.add_zero, Nat.mul_comm] at h
  exact h.symm

/-- Each factor of ten puts a zero at the end. -/
theorem natText_mul_tenPow {n : Nat} (hn : n ≠ 0) (k : Nat) :
    natText (n * tenPow k) = natText n ++ List.replicate k '0' := by
  induction k with
  | zero => simp [tenPow]
  | succ k ih =>
    have hne : n * tenPow k ≠ 0 := Nat.mul_ne_zero hn (Nat.ne_of_gt (tenPow_pos k))
    rw [tenPow_succ, ← Nat.mul_assoc, natText_mul_ten hne, ih, List.append_assoc,
      List.replicate_succ']

theorem length_natText_le_iff {n k : Nat} (hk : 0 < k) :
    (natText n).length ≤ k ↔ n < tenPow k :=
  Nat.length_toDigits_le_iff (by omega) hk

theorem isLong_iff {n : Int} : isLong n = true ↔ tenPow digitLimit ≤ n.natAbs := by
  rw [isLong, decide_eq_true_iff, ← Nat.not_le, length_natText_le_iff (by decide), Nat.not_lt]

theorem isLong_neg_ofNat {n : Nat} (h : tenPow digitLimit ≤ n) :
    isLong (-Int.ofNat n) = true := by
  rwa [isLong_iff, Int.natAbs_neg]

end Decimal
end TerseRuby
