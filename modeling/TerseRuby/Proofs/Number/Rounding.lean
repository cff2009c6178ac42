import TerseRuby.Number.Shortest
import TerseRuby.Proofs.Number.Digits
import Mathlib.Algebra.Field.Rat
import Mathlib.Data.Rat.Cast.CharZero

/-!
# The shortest decimal reads back

A number is written by the digits of `Double.shortest`, a decimal that was found by trying decimals
until one reads back.  What remains to be shown is that the search cannot come back without one, and
that it does not matter how the decimal is then spelled:

* the nearest number to a fraction depends on its value only (`ofRatio_congr`), and so does the
  nearest number to a decimal, whose value is a rational number (`Decimal.value`,
  `ofDecimal_congr`): digits may be padded with zeros;
* a finite number is the nearest one to its own value (`ofRatio_magnitude`), so the exact expansion,
  in which the search ends, reads back (`ofDecimal_exactDecimal`);
* the sign is independent of all this (`ofDecimal_of_positive`).

`ofDecimal_shortest` is the result.
-/

set_option autoImplicit false

namespace TerseRuby

/-! ## The value of a decimal -/

namespace Decimal

/-- The number that a decimal stands for. -/
def value (x : Decimal) : ℚ := x.digits * 10 ^ x.power

theorem value_eq_zero_iff {x : Decimal} : x.value = 0 ↔ x.digits = 0 := by
  have hten : (10 : ℚ) ^ x.power ≠ 0 := zpow_ne_zero _ (by decide)
  rw [value, mul_eq_zero, or_iff_left hten, Nat.cast_eq_zero]

/-- A factor of ten of the digits is as good as one more in the power. -/
theorem value_mul_tenPow (digits k : Nat) (power : Int) :
    value ⟨digits * tenPow k, power⟩ = value ⟨digits, power + k⟩ := by
  have hten : ((tenPow k : Nat) : ℚ) = 10 ^ (k : Int) := by
    rw [zpow_natCast]
    exact Nat.cast_pow 10 k
  rw [value, value, Nat.cast_mul, hten, mul_assoc, ← zpow_add₀ (by decide), add_comm]

theorem value_injective {digits digits' : Nat} {power : Int}
    (h : value ⟨digits, power⟩ = value ⟨digits', power⟩) : digits = digits' := by
  have hten : (10 : ℚ) ^ power ≠ 0 := zpow_ne_zero _ (by decide)
  exact Nat.cast_injective (mul_right_cancel₀ hten h)

end Decimal

namespace Double

open Decimal (tenPow tenPow_pos tenPow_add natText)

/-! ## Rounding a fraction -/

theorem roundQuotient_mul_right (n d : Nat) {k : Nat} (hk : 0 < k) :
    roundQuotient (n * k) (d * k) = roundQuotient n d := by
  have hquotient : n * k / (d * k) = n / d := Nat.mul_div_mul_right n d hk
  have hremainder : n * k % (d * k) = n % d * k := Nat.mul_mod_mul_right k n d
  have hbelow : 2 * (n % d * k) < d * k ↔ 2 * (n % d) < d := by
    rw [← Nat.mul_assoc]
    exact Nat.mul_lt_mul_right hk
  have habove : d * k < 2 * (n % d * k) ↔ d < 2 * (n % d) := by
    rw [← Nat.mul_assoc]
    exact Nat.mul_lt_mul_right hk
  simp only [roundQuotient, hquotient, hremainder, hbelow, habove]

theorem roundQuotient_mul_self (n : Nat) {d : Nat} (hd : 0 < d) : roundQuotient (n * d) d = n := by
  have hquotient : n * d / d = n := Nat.mul_div_cancel n hd
  have hremainder : n * d % d = 0 := Nat.mul_mod_left n d
  simp [roundQuotient, hquotient, hremainder, hd]

theorem ofRatio_mul_right (negative : Bool) (n d : Nat) {k : Nat} (hk : 0 < k) :
    ofRatio negative (n * k) (d * k) = ofRatio negative n d := by
  have hbinade : binade (n * k) (d * k) = binade n d := by
    rw [binade, binade, Nat.mul_right_comm, Nat.mul_div_mul_right _ _ hk]
  rw [ofRatio, ofRatio, hbinade, Nat.mul_right_comm n k unit,
    Nat.mul_right_comm d k (twoPow (binade n d)), roundQuotient_mul_right _ _ hk]

/-- **The nearest number to a fraction depends on the value of the fraction only.** -/
theorem ofRatio_congr (negative : Bool) {n d n' d' : Nat} (hd : 0 < d) (hd' : 0 < d')
    (h : n * d' = n' * d) : ofRatio negative n d = ofRatio negative n' d' :=
  calc ofRatio negative n d
      = ofRatio negative (n * d') (d * d') := (ofRatio_mul_right negative n d hd').symm
    _ = ofRatio negative (n' * d) (d' * d) := by rw [h, Nat.mul_comm d d']
    _ = ofRatio negative n' d' := ofRatio_mul_right negative n' d' hd

/-! ## The value of a finite number -/

theorem twoPow_pos (k : Nat) : 0 < twoPow k := Nat.two_pow_pos k

theorem twoPow_add (j k : Nat) : twoPow (j + k) = twoPow j * twoPow k := Nat.pow_add 2 j k

theorem twoPow_le {j k : Nat} (h : j ≤ k) : twoPow j ≤ twoPow k :=
  Nat.pow_le_pow_right (by omega) h

theorem unit_pos : 0 < unit := twoPow_pos 1074

theorem log2_eq {n k : Nat} (hlower : twoPow k ≤ n) (hupper : n < twoPow (k + 1)) : n.log2 = k :=
  (Nat.log2_eq_iff (Nat.ne_of_gt (Nat.lt_of_lt_of_le (twoPow_pos k) hlower))).mpr ⟨hlower, hupper⟩

theorem fraction_lt (fraction : Fin fractions) : fraction.val < twoPow 52 := fraction.isLt

/-- The numbers next to a finite number are as far apart as its own scale says. -/
theorem log2_significand (exponent : Fin 2047) (fraction : Fin fractions) :
    (significand exponent fraction * twoPow (scale exponent)).log2 - 52 = scale exponent := by
  have hfraction := fraction_lt fraction
  by_cases hexponent : exponent.val = 0
  · have hscale : scale exponent = 0 := by rw [scale, hexponent]
    have hsignificand : significand exponent fraction = fraction.val := if_pos hexponent
    rw [hscale, hsignificand, Nat.sub_eq_zero_iff_le]
    by_cases hzero : fraction.val = 0
    · rw [hzero, Nat.zero_mul]
      exact Nat.zero_le _
    · have hone : fraction.val * twoPow 0 = fraction.val := Nat.mul_one _
      rw [hone]
      exact Nat.le_of_lt ((Nat.log2_lt hzero).mpr hfraction)
  · have hsignificand : significand exponent fraction = twoPow 52 + fraction.val :=
      if_neg hexponent
    have hlower : twoPow (52 + scale exponent) ≤
        significand exponent fraction * twoPow (scale exponent) := by
      rw [twoPow_add, hsignificand]
      exact Nat.mul_le_mul_right _ (Nat.le_add_right _ _)
    have hupper : significand exponent fraction * twoPow (scale exponent) <
        twoPow (52 + scale exponent + 1) := by
      have hdouble : twoPow 52 + fraction.val < twoPow (52 + 1) := by
        have : twoPow (52 + 1) = twoPow 52 + twoPow 52 := by decide
        omega
      rw [Nat.add_right_comm, twoPow_add, hsignificand]
      exact Nat.mul_lt_mul_of_pos_right hdouble (twoPow_pos _)
    rw [log2_eq hlower hupper, Nat.add_sub_cancel_left]

theorem ofRank_fields (negative : Bool) (exponent : Fin 2047) (fraction : Fin fractions) :
    ofRank negative (fractions * exponent.val + fraction.val) =
      .finite negative exponent fraction := by
  have hquotient : (fractions * exponent.val + fraction.val) / fractions = exponent.val := by
    rw [Nat.mul_add_div (by decide), Nat.div_eq_of_lt fraction.isLt, Nat.add_zero]
  have hremainder : (fractions * exponent.val + fraction.val) % fractions = fraction.val := by
    rw [Nat.mul_add_mod, Nat.mod_eq_of_lt fraction.isLt]
  rw [ofRank, dif_pos (by rw [hquotient]; exact exponent.isLt)]
  congr 1 <;> apply Fin.ext <;> assumption

/-- The place of a finite number in the sequence of all. -/
theorem scale_mul_add_significand (exponent : Fin 2047) (fraction : Fin fractions) :
    scale exponent * fractions + significand exponent fraction =
      fractions * exponent.val + fraction.val := by
  rw [scale, significand, Nat.mul_comm]
  by_cases hexponent : exponent.val = 0
  · simp [hexponent]
  · have hscale : fractions * exponent.val = fractions * (exponent.val - 1) + fractions := by
      rw [← Nat.mul_succ, Nat.succ_eq_add_one, Nat.sub_add_cancel (Nat.pos_of_ne_zero hexponent)]
    rw [if_neg hexponent, hscale, Nat.add_assoc]

/-- **A finite number is the nearest one to its own value.** -/
theorem ofRatio_magnitude (negative : Bool) (exponent : Fin 2047) (fraction : Fin fractions) :
    ofRatio negative (significand exponent fraction * twoPow (scale exponent)) unit =
      .finite negative exponent fraction := by
  have hbinade : binade (significand exponent fraction * twoPow (scale exponent)) unit =
      scale exponent := by
    rw [binade, Nat.mul_div_cancel _ unit_pos, log2_significand]
  have hround : roundQuotient (significand exponent fraction * twoPow (scale exponent) * unit)
      (unit * twoPow (scale exponent)) = significand exponent fraction := by
    rw [Nat.mul_assoc, Nat.mul_comm (twoPow _) unit,
      roundQuotient_mul_self _ (Nat.mul_pos unit_pos (twoPow_pos _))]
  rw [ofRatio, hbinade, hround, scale_mul_add_significand, ofRank_fields]

/-! ## Decimals -/

/-- Where a decimal's leading digit stands, counted from one. -/
def size (x : Decimal) : Int := (natText x.digits).length + x.power

/-- A decimal that is neither zero nor out of range is rounded as a fraction. -/
theorem ofDecimal_eq_ofRatio (negative : Bool) {x : Decimal} (hdigits : x.digits ≠ 0)
    (hupper : size x ≤ 400) (hlower : -400 ≤ size x) :
    ofDecimal negative x =
      ofRatio negative (x.digits * tenPow x.power.toNat) (tenPow (-x.power).toNat) := by
  rw [size] at hupper hlower
  rw [ofDecimal, if_neg hdigits, if_neg (by omega), if_neg (by omega)]
  by_cases hpower : 0 ≤ x.power
  · have hzero : (-x.power).toNat = 0 := by omega
    have hone : tenPow 0 = 1 := rfl
    rw [if_pos hpower, hzero, hone]
  · have hzero : x.power.toNat = 0 := by omega
    have hone : tenPow 0 = 1 := rfl
    rw [if_neg hpower, hzero, hone, Nat.mul_one]

theorem ofDecimal_of_large (negative : Bool) {x : Decimal} (hdigits : x.digits ≠ 0)
    (h : 400 < size x) : ofDecimal negative x = .infinity negative := by
  rw [ofDecimal, if_neg hdigits]
  exact if_pos h

theorem ofDecimal_of_small (negative : Bool) {x : Decimal} (hdigits : x.digits ≠ 0)
    (h : size x < -400) : ofDecimal negative x = zero negative := by
  rw [size] at h
  rw [ofDecimal, if_neg hdigits, if_neg (by omega), if_pos h]

/-- **Zeros at the end of the digits can be moved into the power.** -/
theorem ofDecimal_mul_tenPow (negative : Bool) {digits : Nat} (hdigits : digits ≠ 0) (k : Nat)
    (power : Int) :
    ofDecimal negative ⟨digits * tenPow k, power⟩ = ofDecimal negative ⟨digits, power + k⟩ := by
  have hdigits' : digits * tenPow k ≠ 0 := Nat.mul_ne_zero hdigits (Nat.ne_of_gt (tenPow_pos k))
  have hsize : size ⟨digits * tenPow k, power⟩ = size ⟨digits, power + k⟩ := by
    simp only [size, Decimal.natText_mul_tenPow hdigits, List.length_append, List.length_replicate]
    omega
  rcases Int.lt_or_le 400 (size ⟨digits, power + k⟩) with hlarge | hupper
  · rw [ofDecimal_of_large negative hdigits hlarge,
      ofDecimal_of_large negative hdigits' (hsize ▸ hlarge)]
  rcases Int.lt_or_le (size ⟨digits, power + k⟩) (-400) with hsmall | hlower
  · rw [ofDecimal_of_small negative hdigits hsmall,
      ofDecimal_of_small negative hdigits' (hsize ▸ hsmall)]
  rw [ofDecimal_eq_ofRatio negative hdigits' (hsize ▸ hupper) (hsize ▸ hlower),
    ofDecimal_eq_ofRatio negative hdigits hupper hlower]
  refine ofRatio_congr negative (tenPow_pos _) (tenPow_pos _) ?_
  have hpower : k + power.toNat + (-(power + k)).toNat = (power + k).toNat + (-power).toNat := by
    omega
  calc digits * tenPow k * tenPow power.toNat * tenPow (-(power + k)).toNat
      = digits * tenPow (k + power.toNat + (-(power + k)).toNat) := by
        rw [tenPow_add, tenPow_add, Nat.mul_assoc, Nat.mul_assoc, Nat.mul_assoc]
    _ = digits * tenPow (power + k).toNat * tenPow (-power).toNat := by
        rw [hpower, tenPow_add, Nat.mul_assoc]

/-- Zero, however it is spelled. -/
theorem ofDecimal_of_zero (negative : Bool) {x : Decimal} (h : x.digits = 0) :
    ofDecimal negative x = zero negative := if_pos h

/-- **The nearest number to a decimal depends on the value of the decimal only.** -/
theorem ofDecimal_congr (negative : Bool) {x y : Decimal} (h : x.value = y.value) :
    ofDecimal negative x = ofDecimal negative y := by
  by_cases hx : x.digits = 0
  · have hy : y.digits = 0 := by
      rw [← Decimal.value_eq_zero_iff, ← h, Decimal.value_eq_zero_iff]
      exact hx
    rw [ofDecimal_of_zero negative hx, ofDecimal_of_zero negative hy]
  · have hy : y.digits ≠ 0 := by
      rwa [ne_eq, ← Decimal.value_eq_zero_iff, ← h, Decimal.value_eq_zero_iff]
    -- Both are counted in units of the smaller of the two powers.
    obtain ⟨digits, power⟩ := x
    obtain ⟨digits', power'⟩ := y
    obtain ⟨least, j, k, rfl, rfl⟩ :
        ∃ (least : Int) (j k : Nat), power = least + j ∧ power' = least + k :=
      ⟨min power power', (power - min power power').toNat, (power' - min power power').toNat,
        by omega, by omega⟩
    rw [← Decimal.value_mul_tenPow, ← Decimal.value_mul_tenPow] at h
    rw [← ofDecimal_mul_tenPow negative hx, ← ofDecimal_mul_tenPow negative hy,
      Decimal.value_injective h]

theorem ofRank_of_positive {rank : Nat} {exponent : Fin 2047} {fraction : Fin fractions}
    (h : ofRank false rank = .finite false exponent fraction) (negative : Bool) :
    ofRank negative rank = .finite negative exponent fraction := by
  rw [ofRank] at h ⊢
  split at h
  · cases h
    rw [dif_pos]
  · cases h

/-- The sign of a decimal is the sign of the number, and nothing else depends on it. -/
theorem ofDecimal_of_positive {x : Decimal} {exponent : Fin 2047} {fraction : Fin fractions}
    (h : ofDecimal false x = .finite false exponent fraction) (negative : Bool) :
    ofDecimal negative x = .finite negative exponent fraction := by
  rw [ofDecimal] at h ⊢
  split
  · rename_i hzero
    rw [if_pos hzero] at h
    cases h
    rfl
  · rename_i hzero
    rw [if_neg hzero] at h
    split
    · rename_i hlarge
      rw [if_pos hlarge] at h
      cases h
    · rename_i hlarge
      rw [if_neg hlarge] at h
      split
      · rename_i hsmall
        rw [if_pos hsmall] at h
        cases h
        rfl
      · rename_i hsmall
        rw [if_neg hsmall] at h
        split
        · rename_i hpower
          rw [if_pos hpower] at h
          exact ofRank_of_positive h negative
        · rename_i hpower
          rw [if_neg hpower] at h
          exact ofRank_of_positive h negative

/-! ## The shortest decimal -/

theorem significand_lt (exponent : Fin 2047) (fraction : Fin fractions) :
    significand exponent fraction < twoPow 53 := by
  have hfraction := fraction_lt fraction
  have hdouble : twoPow 53 = twoPow 52 + twoPow 52 := by decide
  have hfractions : fractions = twoPow 52 := by decide
  rw [significand]
  split <;> omega

theorem magnitude_lt (exponent : Fin 2047) (fraction : Fin fractions) :
    significand exponent fraction * twoPow (scale exponent) < twoPow 2099 := by
  have hscale : scale exponent ≤ 2046 := by
    rw [scale]
    omega
  calc significand exponent fraction * twoPow (scale exponent)
      < twoPow 53 * twoPow 2046 :=
        Nat.mul_lt_mul_of_lt_of_le (significand_lt exponent fraction) (twoPow_le hscale)
          (twoPow_pos _)
    _ = twoPow 2099 := (twoPow_add 53 2046).symm

theorem tenPow_eq (k : Nat) : tenPow k = fivePow k * twoPow k := Nat.mul_pow 5 2 k

theorem twoPow_mul_lt : twoPow 2099 * fivePow 1074 < tenPow 1400 := by decide +kernel

theorem tenPow_le : tenPow 700 ≤ fivePow 1074 := by decide +kernel

/-- **The exact expansion reads back.** -/
theorem ofDecimal_exactDecimal {exponent : Fin 2047} {fraction : Fin fractions}
    (h : significand exponent fraction * twoPow (scale exponent) ≠ 0) :
    ofDecimal false (exactDecimal exponent fraction) = .finite false exponent fraction := by
  have hlt := magnitude_lt exponent fraction
  rw [exactDecimal, ← ofRatio_magnitude]
  generalize significand exponent fraction * twoPow (scale exponent) = n at h hlt
  have hfive : 0 < fivePow 1074 := Nat.lt_of_lt_of_le (tenPow_pos _) tenPow_le
  have hten : tenPow 1074 = fivePow 1074 * unit := by
    rw [unit]
    exact tenPow_eq 1074
  have hupper : n * fivePow 1074 < tenPow 1400 :=
    Nat.lt_trans (Nat.mul_lt_mul_of_pos_right hlt hfive) twoPow_mul_lt
  have hlower : tenPow 700 ≤ n * fivePow 1074 :=
    Nat.le_trans tenPow_le (Nat.le_mul_of_pos_left _ (Nat.pos_of_ne_zero h))
  generalize fivePow 1074 = five at hfive hten hupper hlower
  have hlong := (Decimal.length_natText_le_iff (by omega)).mpr hupper
  have hshort := mt (Decimal.length_natText_le_iff (by omega)).mp (Nat.not_lt.mpr hlower)
  have hsize : size ⟨n * five, -1074⟩ = (natText (n * five)).length - 1074 := rfl
  have hdigits : n * five ≠ 0 := Nat.mul_ne_zero h (Nat.ne_of_gt hfive)
  rw [ofDecimal_eq_ofRatio false hdigits (by omega) (by omega)]
  refine ofRatio_congr false (tenPow_pos _) unit_pos ?_
  have hzero : (-1074 : Int).toNat = 0 := rfl
  have hone : tenPow 0 = 1 := rfl
  have hpower : (-(-1074) : Int).toNat = 1074 := rfl
  simp only [hzero, hone, hpower, hten, Nat.mul_one, Nat.mul_assoc]

theorem ofRatio_zero (negative : Bool) {d : Nat} (hd : 0 < d) :
    ofRatio negative 0 d = zero negative := by
  have hbinade : binade 0 d = 0 := by
    rw [binade, Nat.zero_mul, Nat.zero_div]
    decide
  have hround : roundQuotient (0 * unit) (d * twoPow 0) = 0 := by
    have hpos : 0 < d * twoPow 0 := Nat.mul_pos hd (twoPow_pos 0)
    simp [roundQuotient, hpos]
  rw [ofRatio, hbinade, hround]
  exact ofRank_fields negative 0 0

/-- What the search returns has passed its test. -/
theorem of_firstPassing? {test : Decimal → Bool} {n d : Nat} {x : Decimal}
    (h : firstPassing? test n d = some x) : test x = true := by
  obtain ⟨i, -, hi⟩ := List.exists_of_findSome?_eq_some h
  exact List.find?_some hi

/-- **The shortest decimal reads back.** -/
theorem ofDecimal_shortest (negative : Bool) (exponent : Fin 2047) (fraction : Fin fractions) :
    ofDecimal negative (shortest exponent fraction) = .finite negative exponent fraction := by
  refine ofDecimal_of_positive ?_ negative
  by_cases hzero : (magnitude exponent fraction).1 = 0
  · have hnumber := ofRatio_magnitude false exponent fraction
    have hn : significand exponent fraction * twoPow (scale exponent) = 0 := hzero
    rw [hn, ofRatio_zero false unit_pos] at hnumber
    rw [shortest, if_pos hzero, ofDecimal_of_zero false rfl, hnumber]
  · rw [shortest, if_neg hzero]
    rcases hfound : firstPassing? (readsBack exponent fraction) (magnitude exponent fraction).1
        (magnitude exponent fraction).2 with _ | x
    · exact ofDecimal_exactDecimal hzero
    · exact eq_of_beq (of_firstPassing? hfound)

end Double
end TerseRuby
