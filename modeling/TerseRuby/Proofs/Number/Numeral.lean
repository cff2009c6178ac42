import TerseRuby.Number.Format
import TerseRuby.Proofs.Number.Rounding
import Mathlib.Data.List.TakeDrop

/-!
# Numerals read back

A numeral that stands in a text is scanned as one piece, whatever follows it, as long as that could
not be a part of it.  This file gives the spelling of a numeral (`Numeral.chars`), says which
numerals have the scanner's form (`Numeral.IsProper`), and shows that a proper numeral is scanned
back from its spelling (`Numeral.scanNumeral_chars`).

What the writers of numbers produce is then a question of which numeral it spells:

* the text of an integer spells the numeral `Numeral.ofInt`, which has the integer as its value;
* the text of a decimal, in every format, spells `NumberFormat.numeral`, whose value is the value
  of the decimal (`NumberFormat.value_numeral`) although its digits may be padded with zeros and
  its power hidden in the place of the point.

So a finite number is read back from what is written for it, sign and all
(`NumberFormat.ofNumeral_numeral_shortest`).
-/

set_option autoImplicit false

namespace TerseRuby

open Decimal (isDigit natOf natText tenPow)

/-! ## The spelling of a numeral -/

namespace Decimal.Numeral

/-- The exponent of a numeral, with a plus sign where the format wants one. -/
def exponentChars (plusSign : Bool) : Option (Bool × List Char) → List Char
  | none => []
  | some (true, digits) => 'e' :: '-' :: digits
  | some (false, digits) => if plusSign then 'e' :: '+' :: digits else 'e' :: digits

/-- The fraction of a numeral. -/
def fractionChars : Option (List Char) → List Char
  | none => []
  | some digits => '.' :: digits

/-- The text of a numeral without its sign. -/
def unsignedChars (plusSign : Bool) (n : Numeral) : List Char :=
  n.whole ++ (fractionChars n.fraction ++ exponentChars plusSign n.exponent)

/-- The text of a numeral. -/
def chars (plusSign : Bool) (n : Numeral) : List Char :=
  NumberFormat.signed n.negative (n.unsignedChars plusSign)

/-- At least one character, and only digits. -/
def IsRun (digits : List Char) : Prop := digits ≠ [] ∧ ∀ c ∈ digits, isDigit c = true

/-- The form that the scanner finds: digits in each part, and no zero before other digits. -/
structure IsProper (n : Numeral) : Prop where
  /-- The whole part has digits. -/
  whole : IsRun n.whole
  /-- The whole part is a zero or begins with another digit. -/
  leading : n.whole = ['0'] ∨ n.whole.head? ≠ some '0'
  /-- The fraction has digits, if there is one. -/
  fraction : ∀ digits ∈ n.fraction, IsRun digits
  /-- The exponent has digits, if there is one. -/
  exponent : ∀ e ∈ n.exponent, IsRun e.2

/-- What follows a numeral does not go on with it. -/
def Ends (rest : List Char) : Prop :=
  ∀ c, rest.head? = some c → isDigit c = false ∧ c ≠ '.' ∧ c ≠ 'e' ∧ c ≠ 'E'

/-! ## Scanning the parts -/

theorem spanDigits_append {digits rest : List Char} (hdigits : ∀ c ∈ digits, isDigit c = true)
    (hrest : ∀ c, rest.head? = some c → isDigit c = false) :
    spanDigits (digits ++ rest) = (digits, rest) := by
  obtain ⟨htake, hdrop⟩ := span_append hdigits hrest
  rw [spanDigits, List.span_eq_takeWhile_dropWhile, htake, hdrop]

theorem isDigit_ne_sign {c : Char} (h : isDigit c = true) : c ≠ '-' ∧ c ≠ '+' := by
  refine @forall_isDigit (fun c => c ≠ '-' ∧ c ≠ '+') ?_ c h
  decide

theorem scanWhole_append {digits rest : List Char} (hdigits : IsRun digits)
    (hleading : digits = ['0'] ∨ digits.head? ≠ some '0')
    (hrest : ∀ c, rest.head? = some c → isDigit c = false) :
    scanWhole (digits ++ rest) = some (digits, rest) := by
  rcases digits with _ | ⟨c, cs⟩
  · exact absurd rfl hdigits.1
  · by_cases hc : c = '0'
    · subst hc
      have hcs : cs = [] := by simpa using hleading
      subst hcs
      rfl
    · rw [scanWhole]
      · rw [spanDigits_append hdigits.2 hrest]
      · intro tail htail
        exact hc (List.cons_eq_cons.mp htail).1

theorem scanFraction_append {fraction : Option (List Char)} {rest : List Char}
    (hfraction : ∀ digits ∈ fraction, IsRun digits)
    (hrest : ∀ c, rest.head? = some c → isDigit c = false ∧ c ≠ '.') :
    scanFraction (fractionChars fraction ++ rest) = (fraction, rest) := by
  rcases fraction with _ | digits
  · rw [fractionChars, List.nil_append, scanFraction]
    intro tail htail
    subst htail
    exact (hrest '.' rfl).2 rfl
  · obtain ⟨hne, hdigits⟩ := hfraction digits rfl
    have hspan := spanDigits_append hdigits fun c hc => (hrest c hc).1
    rcases digits with _ | ⟨d, ds⟩
    · exact absurd rfl hne
    · rw [fractionChars, List.cons_append, scanFraction, hspan]

theorem scanExponent_letter (text : List Char) {digits rest : List Char} {negative : Bool}
    (hsign : scanSign text = (negative, digits ++ rest)) (hdigits : IsRun digits)
    (hrest : ∀ c, rest.head? = some c → isDigit c = false) :
    scanExponent ('e' :: text) = (some (negative, digits), rest) := by
  have hspan := spanDigits_append hdigits.2 hrest
  obtain ⟨d, ds, rfl⟩ := List.exists_cons_of_ne_nil hdigits.1
  simp only [scanExponent, hsign, hspan, beq_self_eq_true, Bool.true_or, if_true]

theorem scanExponent_append (plusSign : Bool) {exponent : Option (Bool × List Char)}
    {rest : List Char} (hexponent : ∀ e ∈ exponent, IsRun e.2) (hrest : Ends rest) :
    scanExponent (exponentChars plusSign exponent ++ rest) = (exponent, rest) := by
  have hdigit : ∀ c, rest.head? = some c → isDigit c = false := fun c hc => (hrest c hc).1
  rcases exponent with _ | ⟨negative, digits⟩
  · rcases rest with _ | ⟨c, rest⟩
    · rfl
    · obtain ⟨-, -, he, hE⟩ := hrest c rfl
      simp [exponentChars, scanExponent, he, hE]
  · have hrun : IsRun digits := hexponent _ rfl
    rcases negative with _ | _
    · rcases plusSign with _ | _
      · -- Without a plus sign the first digit follows the letter, and that is no sign.
        obtain ⟨d, ds, rfl⟩ := List.exists_cons_of_ne_nil hrun.1
        obtain ⟨hminus, hplus⟩ := isDigit_ne_sign (hrun.2 d List.mem_cons_self)
        refine scanExponent_letter (d :: ds ++ rest) ?_ hrun hdigit
        simp [scanSign, hminus, hplus]
      · exact scanExponent_letter ('+' :: digits ++ rest) rfl hrun hdigit
    · exact scanExponent_letter ('-' :: digits ++ rest) rfl hrun hdigit

/-! ## Scanning a numeral -/

theorem head_exponentChars (plusSign : Bool) (exponent : Option (Bool × List Char))
    {rest : List Char} (hrest : Ends rest) {c : Char}
    (hc : (exponentChars plusSign exponent ++ rest).head? = some c) :
    isDigit c = false ∧ c ≠ '.' := by
  have hletter : isDigit 'e' = false ∧ 'e' ≠ '.' := by decide
  rcases exponent with _ | ⟨_ | _, digits⟩
  · exact ⟨(hrest c hc).1, (hrest c hc).2.1⟩
  · rcases plusSign with _ | _ <;> exact Option.some.inj hc ▸ hletter
  · exact Option.some.inj hc ▸ hletter

theorem head_fractionChars (fraction : Option (List Char)) {rest : List Char}
    (hrest : ∀ c, rest.head? = some c → isDigit c = false) {c : Char}
    (hc : (fractionChars fraction ++ rest).head? = some c) : isDigit c = false := by
  rcases fraction with _ | digits
  · exact hrest c hc
  · have hpoint : isDigit '.' = false := by decide
    exact Option.some.inj hc ▸ hpoint

theorem scanParts_unsignedChars (plusSign : Bool) {n : Numeral} (hn : n.IsProper)
    {rest : List Char} (hrest : Ends rest) :
    scanParts n.negative (n.unsignedChars plusSign ++ rest) = some (n, rest) := by
  have hexponent := scanExponent_append plusSign hn.exponent hrest
  have hfraction := scanFraction_append hn.fraction fun c =>
    head_exponentChars plusSign n.exponent hrest
  have hwhole := scanWhole_append hn.whole hn.leading fun c =>
    head_fractionChars n.fraction fun c hc => (head_exponentChars plusSign n.exponent hrest hc).1
  rw [unsignedChars, List.append_assoc, List.append_assoc, scanParts, hwhole]
  simp only [Option.bind_eq_bind, Option.bind_some, hfraction, hexponent]
  rfl

theorem scanNumeral_unsigned {text : List Char} (h : text.head? ≠ some '-') :
    scanNumeral text = scanParts false text := by
  rw [scanNumeral]
  intro rest hrest
  exact h (hrest ▸ rfl)

/-- **A proper numeral is scanned back from its text.** -/
theorem scanNumeral_chars (plusSign : Bool) {n : Numeral} (hn : n.IsProper) {rest : List Char}
    (hrest : Ends rest) : scanNumeral (n.chars plusSign ++ rest) = some (n, rest) := by
  have hparts := scanParts_unsignedChars plusSign hn hrest
  rcases hnegative : n.negative with _ | _ <;> rw [hnegative] at hparts <;> rw [chars, hnegative]
  · -- The first character is a digit, so it is not taken for a sign.
    have hhead : (n.unsignedChars plusSign ++ rest).head? ≠ some '-' := by
      obtain ⟨d, ds, hwhole⟩ := List.exists_cons_of_ne_nil hn.whole.1
      have hd : d ≠ '-' := (isDigit_ne_sign (hn.whole.2 d (hwhole ▸ List.mem_cons_self))).1
      rw [unsignedChars, hwhole]
      exact fun h => hd (Option.some.inj h)
    exact (scanNumeral_unsigned hhead).trans hparts
  · exact hparts

/-! ## Integers -/

theorem isRun_natText (n : Nat) : IsRun (natText n) :=
  ⟨natText_ne_nil n, fun _ => isDigit_of_mem_natText⟩

theorem leading_natText (n : Nat) : natText n = ['0'] ∨ (natText n).head? ≠ some '0' := by
  by_cases hn : n = 0
  · exact .inl (hn ▸ rfl)
  · exact .inr (head_natText_ne hn)

/-- The numeral of an integer. -/
def ofInt (n : Int) : Numeral := ⟨decide (n < 0), natText n.natAbs, none, none⟩

theorem chars_ofInt (plusSign : Bool) (n : Int) : (ofInt n).chars plusSign = intText n := by
  rcases n with n | n
  · simp [chars, ofInt, NumberFormat.signed, unsignedChars, fractionChars, exponentChars, intText]
  · simp [chars, ofInt, NumberFormat.signed, unsignedChars, fractionChars, exponentChars, intText]

theorem isProper_ofInt (n : Int) : (ofInt n).IsProper where
  whole := isRun_natText _
  leading := leading_natText _
  fraction := by intro _ h; cases h
  exponent := by intro _ h; cases h

theorem toInt_ofInt (n : Int) : (ofInt n).toInt = n := by
  simp only [toInt, ofInt, natOf_natText, decide_eq_true_eq]
  split <;> rw [Int.ofNat_eq_natCast] <;> omega

end Decimal.Numeral

/-! ## Decimals -/

namespace NumberFormat

open Decimal (Numeral)
open Decimal.Numeral (IsRun IsProper)

/-- Cutting off the zeros at the end leaves digits that, with as many zeros, make up all. -/
theorem exists_zeros (digits : List Char) :
    ∃ k, digits = (digits.reverse.dropWhile (· == '0')).reverse ++ List.replicate k '0' := by
  refine ⟨(digits.reverse.takeWhile (· == '0')).length, ?_⟩
  have hzeros : digits.reverse.takeWhile (· == '0') =
      List.replicate (digits.reverse.takeWhile (· == '0')).length '0' :=
    List.eq_replicate_iff.mpr ⟨rfl, fun c hc => by
      simpa using List.all_eq_true.mp List.all_takeWhile c hc⟩
  rw [← List.reverse_replicate, ← hzeros, ← List.reverse_append, List.takeWhile_append_dropWhile,
    List.reverse_reverse]

theorem significant_of_zero {x : Decimal} (h : x.digits = 0) :
    significant x = (['0'], x.power) := by
  have hzero : natText 0 = ['0'] := rfl
  simp [significant, h, hzero]

/-- The significant digits of a positive decimal: those of its digits, less the zeros at the end. -/
theorem significant_of_ne_zero {x : Decimal} (h : x.digits ≠ 0) :
    ∃ digits k, digits ≠ [] ∧ natText x.digits = digits ++ List.replicate k '0' ∧
      significant x = (digits, (digits.length + k : Nat) - 1 + x.power) := by
  obtain ⟨k, hk⟩ := exists_zeros (natText x.digits)
  rw [significant]
  generalize ((natText x.digits).reverse.dropWhile (· == '0')).reverse = digits at hk
  have hne : digits ≠ [] := by
    rintro rfl
    apply h
    rw [← Decimal.natOf_natText x.digits, hk, List.nil_append, Decimal.natOf_zeros]
  refine ⟨digits, k, hne, hk, ?_⟩
  rw [hk]
  simp [hne]

theorem isRun_significant (x : Decimal) : IsRun (significant x).1 := by
  by_cases h : x.digits = 0
  · rw [significant_of_zero h]
    exact ⟨List.cons_ne_nil _ _, fun c hc => List.mem_singleton.mp hc ▸ Decimal.isDigit_zero⟩
  · obtain ⟨digits, k, hne, htext, hx⟩ := significant_of_ne_zero h
    rw [hx]
    refine ⟨hne, fun c hc => ?_⟩
    have hmem : c ∈ natText x.digits := htext ▸ List.mem_append_left _ hc
    exact Decimal.isDigit_of_mem_natText hmem

theorem head_significant {x : Decimal} (h : x.digits ≠ 0) :
    (significant x).1.head? ≠ some '0' := by
  obtain ⟨digits, k, hne, htext, hx⟩ := significant_of_ne_zero h
  have hhead := Decimal.head_natText_ne h
  rw [htext, List.head?_append, Option.or_of_isSome (List.isSome_head?.mpr hne)] at hhead
  rwa [hx]

/-- **The significant digits and the place of the first determine the value.** -/
theorem value_significant (x : Decimal) :
    Decimal.value ⟨natOf (significant x).1, (significant x).2 + 1 - (significant x).1.length⟩ =
      x.value := by
  by_cases h : x.digits = 0
  · rw [significant_of_zero h, Decimal.value_eq_zero_iff.mpr h, Decimal.value_eq_zero_iff]
    rfl
  · obtain ⟨digits, k, hne, htext, hx⟩ := significant_of_ne_zero h
    have hdigits : natOf digits * tenPow k = x.digits := by
      rw [← Decimal.natOf_append_zeros, ← htext, Decimal.natOf_natText]
    have hvalue := Decimal.value_mul_tenPow (natOf digits) k x.power
    rw [hdigits] at hvalue
    rw [hx]
    refine Eq.trans ?_ hvalue.symm
    congr 2
    dsimp only
    omega

/-! ### In positional form -/

/-- The numeral of digits whose first stands at `10 ^ lead`, in positional form. -/
def positionalNumeral (negative : Bool) (digits : List Char) (lead : Int) : Numeral :=
  if lead < 0 then
    ⟨negative, ['0'], some (List.replicate (-lead - 1).toNat '0' ++ digits), none⟩
  else
    let before := lead.toNat + 1
    let fraction := digits.drop before
    ⟨negative, digits.take before ++ List.replicate (before - digits.length) '0',
      some (if fraction.isEmpty then ['0'] else fraction), none⟩

theorem chars_positionalNumeral (plusSign negative : Bool) (digits : List Char) (lead : Int) :
    (positionalNumeral negative digits lead).chars plusSign =
      signed negative (positional digits lead) := by
  rw [positionalNumeral, positional]
  split <;> simp [Numeral.chars, Numeral.unsignedChars, Numeral.fractionChars,
    Numeral.exponentChars]

theorem isRun_append {front back : List Char} (hfront : ∀ c ∈ front, Decimal.isDigit c = true)
    (hback : IsRun back) : IsRun (front ++ back) := by
  refine ⟨List.append_ne_nil_of_right_ne_nil _ hback.1, fun c hc => ?_⟩
  rcases List.mem_append.mp hc with hc | hc
  · exact hfront c hc
  · exact hback.2 c hc

theorem isDigit_of_mem_zeros {k : Nat} {c : Char} (hc : c ∈ List.replicate k '0') :
    isDigit c = true :=
  List.eq_of_mem_replicate hc ▸ Decimal.isDigit_zero

theorem isRun_zero : IsRun ['0'] := Numeral.isRun_natText 0

theorem isProper_positionalNumeral (negative : Bool) {digits : List Char} {lead : Int}
    (hdigits : IsRun digits) (hlead : digits.head? ≠ some '0' ∨ digits = ['0'] ∧ lead = 0) :
    (positionalNumeral negative digits lead).IsProper := by
  rw [positionalNumeral]
  split
  · exact {
      whole := isRun_zero
      leading := .inl rfl
      fraction := by
        rintro _ ⟨rfl⟩
        exact isRun_append (fun _ => isDigit_of_mem_zeros) hdigits
      exponent := by rintro _ ⟨⟩ }
  · obtain ⟨d, ds, rfl⟩ := List.exists_cons_of_ne_nil hdigits.1
    exact {
      whole := by
        refine ⟨by simp, fun c hc => ?_⟩
        rcases List.mem_append.mp hc with hc | hc
        · exact hdigits.2 c (List.mem_of_mem_take hc)
        · exact isDigit_of_mem_zeros hc
      leading := by
        rcases hlead with hlead | ⟨hzero, rfl⟩
        · exact .inr (by simpa using hlead)
        · obtain ⟨rfl, rfl⟩ := List.cons_eq_cons.mp hzero
          exact .inl rfl
      fraction := by
        rintro _ ⟨rfl⟩
        split
        · exact isRun_zero
        · rename_i hempty
          refine ⟨by simpa using hempty, fun c hc => hdigits.2 c (List.mem_of_mem_drop hc)⟩
      exponent := by rintro _ ⟨⟩ }

theorem value_positionalNumeral (negative : Bool) (digits : List Char) (lead : Int) :
    (positionalNumeral negative digits lead).toDecimal.value =
      Decimal.value ⟨natOf digits, lead + 1 - digits.length⟩ := by
  by_cases hlead : lead < 0
  · -- Zeros stand between the point and the digits.
    have hdigits : natOf (['0'] ++ (List.replicate (-lead - 1).toNat '0' ++ digits)) =
        natOf digits :=
      (Decimal.natOf_zeros_append 1 _).trans (Decimal.natOf_zeros_append _ _)
    simp only [positionalNumeral, if_pos hlead, Numeral.toDecimal, Option.getD_some, hdigits,
      List.length_append, List.length_replicate]
    congr 2
    omega
  · simp only [positionalNumeral, if_neg hlead, Numeral.toDecimal, Option.getD_some]
    by_cases hlength : digits.length ≤ lead.toNat + 1
    · -- Zeros stand between the digits and the point, and one behind it.
      have hdigits : digits ++ List.replicate (lead.toNat + 1 - digits.length) '0' ++ ['0'] =
          digits ++ List.replicate (lead.toNat + 1 - digits.length + 1) '0' := by
        rw [List.replicate_succ', List.append_assoc]
      rw [List.drop_of_length_le hlength, List.take_of_length_le hlength, List.isEmpty_nil,
        if_pos rfl, hdigits, Decimal.natOf_append_zeros, Decimal.value_mul_tenPow]
      congr 2
      simp only [List.length_singleton]
      omega
    · -- The point stands among the digits.
      have hnone : lead.toNat + 1 - digits.length = 0 := by omega
      have hfraction : (digits.drop (lead.toNat + 1)).isEmpty = false := by
        rw [List.isEmpty_eq_false_iff, ne_eq, List.drop_eq_nil_iff]
        exact hlength
      rw [hnone, hfraction, if_neg Bool.false_ne_true, List.replicate_zero, List.append_nil,
        List.take_append_drop, List.length_drop]
      congr 2
      omega

/-! ### In scientific form -/

/-- The numeral of digits whose first stands at `10 ^ lead`, in scientific form. -/
def scientificNumeral (format : NumberFormat) (negative : Bool) (digits : List Char) (lead : Int) :
    Numeral :=
  let exponent := natText lead.natAbs
  ⟨negative, digits.take 1, if digits.length ≤ 1 then none else some (digits.drop 1),
    some (decide (lead < 0),
      List.replicate (format.exponentWidth - exponent.length) '0' ++ exponent)⟩

theorem exponentChars_scientificNumeral (format : NumberFormat) (negative : Bool)
    (digits : List Char) (lead : Int) :
    Numeral.exponentChars format.plusSign (scientificNumeral format negative digits lead).exponent =
      format.exponent lead := by
  by_cases hlead : lead < 0
  · simp [exponent, Numeral.exponentChars, scientificNumeral, hlead]
  · by_cases hplus : format.plusSign = true <;>
      simp [exponent, Numeral.exponentChars, scientificNumeral, hlead, hplus]

theorem chars_scientificNumeral (format : NumberFormat) (negative : Bool) {digits : List Char}
    (hdigits : digits ≠ []) (lead : Int) :
    (scientificNumeral format negative digits lead).chars format.plusSign =
      signed negative (format.scientific digits lead) := by
  rw [Numeral.chars, Numeral.unsignedChars, exponentChars_scientificNumeral]
  rcases digits with _ | ⟨first, _ | ⟨second, rest⟩⟩
  · exact absurd rfl hdigits
  · rfl
  · rfl

theorem isProper_scientificNumeral (format : NumberFormat) (negative : Bool) {digits : List Char}
    (hdigits : IsRun digits) (lead : Int) :
    (scientificNumeral format negative digits lead).IsProper := by
  obtain ⟨d, ds, rfl⟩ := List.exists_cons_of_ne_nil hdigits.1
  exact {
    whole := ⟨List.cons_ne_nil _ _, fun c hc => hdigits.2 c (List.mem_of_mem_take hc)⟩
    leading := by
      by_cases hd : d = '0'
      · exact .inl (by simp [scientificNumeral, hd])
      · exact .inr (by simpa [scientificNumeral] using hd)
    fraction := by
      intro fraction hfraction
      rw [scientificNumeral, Option.mem_ite_none_left] at hfraction
      obtain ⟨hlength, ⟨rfl⟩⟩ := hfraction
      refine ⟨?_, fun c hc => hdigits.2 c (List.mem_of_mem_drop hc)⟩
      rw [ne_eq, List.drop_eq_nil_iff]
      exact hlength
    exponent := by
      rintro _ ⟨rfl⟩
      exact isRun_append (fun _ => isDigit_of_mem_zeros) (Numeral.isRun_natText _) }

theorem value_scientificNumeral (format : NumberFormat) (negative : Bool) {digits : List Char}
    (hdigits : digits ≠ []) (lead : Int) :
    (scientificNumeral format negative digits lead).toDecimal.value =
      Decimal.value ⟨natOf digits, lead + 1 - digits.length⟩ := by
  have hfraction : (if digits.length ≤ 1 then none else some (digits.drop 1)).getD [] =
      digits.drop 1 := by
    split
    · rename_i hlength
      exact (List.drop_of_length_le hlength).symm
    · rfl
  have hlength := List.length_pos_iff.mpr hdigits
  by_cases hlead : lead < 0 <;>
    simp only [Numeral.toDecimal, scientificNumeral, hfraction, hlead, decide_true, decide_false,
      Decimal.natOf_zeros_append, Decimal.natOf_natText, List.take_append_drop, List.length_drop,
      Int.ofNat_eq_natCast] <;>
    congr 2 <;>
    omega

/-! ### The numeral that is written -/

/-- The numeral that the text of a decimal spells. -/
def numeral (format : NumberFormat) (negative : Bool) (x : Decimal) : Numeral :=
  if leastPositional ≤ (significant x).2 && (significant x).2 ≤ greatestPositional then
    positionalNumeral negative (significant x).1 (significant x).2
  else format.scientificNumeral negative (significant x).1 (significant x).2

theorem chars_numeral (format : NumberFormat) (negative : Bool) (x : Decimal) :
    (format.numeral negative x).chars format.plusSign =
      signed negative (format.decimalText x) := by
  have htext : format.decimalText x =
      if leastPositional ≤ (significant x).2 && (significant x).2 ≤ greatestPositional then
        positional (significant x).1 (significant x).2
      else format.scientific (significant x).1 (significant x).2 := rfl
  rw [numeral, htext]
  split
  · exact chars_positionalNumeral _ _ _ _
  · exact chars_scientificNumeral format negative (isRun_significant x).1 _

/-- A zero is written with the power zero only. -/
theorem isProper_numeral (format : NumberFormat) (negative : Bool) {x : Decimal}
    (hx : x.digits = 0 → x.power = 0) : (format.numeral negative x).IsProper := by
  rw [numeral]
  split
  · refine isProper_positionalNumeral negative (isRun_significant x) ?_
    by_cases h : x.digits = 0
    · rw [significant_of_zero h]
      exact .inr ⟨rfl, hx h⟩
    · exact .inl (head_significant h)
  · exact isProper_scientificNumeral format negative (isRun_significant x) _

/-- **The text of a decimal denotes its value.** -/
theorem value_numeral (format : NumberFormat) (negative : Bool) (x : Decimal) :
    (format.numeral negative x).toDecimal.value = x.value := by
  rw [numeral]
  split
  · rw [value_positionalNumeral, value_significant]
  · rw [value_scientificNumeral format negative (isRun_significant x).1, value_significant]

theorem negative_numeral (format : NumberFormat) (negative : Bool) (x : Decimal) :
    (format.numeral negative x).negative = negative := by
  rw [numeral, positionalNumeral]
  split
  · split <;> rfl
  · rfl

/-- A floating-point number is never written like an integer. -/
theorem isWhole_numeral (format : NumberFormat) (negative : Bool) (x : Decimal) :
    (format.numeral negative x).isWhole = false := by
  rw [numeral, positionalNumeral]
  split
  · split <;> rfl
  · exact Bool.and_false _

end NumberFormat

/-! ## Finite numbers -/

theorem Double.power_shortest {exponent : Fin 2047} {fraction : Fin fractions}
    (h : (shortest exponent fraction).digits = 0) : (shortest exponent fraction).power = 0 := by
  have hzero : Double.zero false = .finite false exponent fraction := by
    rw [← ofDecimal_shortest, ofDecimal_of_zero false h]
  obtain ⟨-, rfl, rfl⟩ := Double.finite.inj hzero
  have hmagnitude : (magnitude 0 0).1 = 0 := Nat.zero_mul _
  rw [shortest, if_pos hmagnitude]

namespace NumberFormat

theorem isProper_numeral_shortest (format : NumberFormat) (negative : Bool) (exponent : Fin 2047)
    (fraction : Fin Double.fractions) :
    (format.numeral negative (Double.shortest exponent fraction)).IsProper :=
  isProper_numeral format negative Double.power_shortest

/-- **A finite number is read back from the numeral that it is written as.** -/
theorem ofNumeral_numeral_shortest (format : NumberFormat) (negative : Bool) (exponent : Fin 2047)
    (fraction : Fin Double.fractions) :
    Double.ofNumeral (format.numeral negative (Double.shortest exponent fraction)) =
      .finite negative exponent fraction := by
  rw [Double.ofNumeral, negative_numeral, Double.ofDecimal_congr negative (value_numeral _ _ _),
    Double.ofDecimal_shortest]

end NumberFormat
end TerseRuby
