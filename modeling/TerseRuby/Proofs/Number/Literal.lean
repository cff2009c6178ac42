import TerseRuby.Proofs.Number.Numeral
import TerseRuby.Proofs.Writing
import Mathlib.Data.List.Induction
import Mathlib.Data.List.TakeWhile

/-!
# Number literals

A floating-point literal is the plain text of its number with a shorter exponent, and the sign that
a number literal begins with is the one that the rules for grouping take it to have.

* `Decimal.Numeral.respelled` is what happens to an exponent: it is read as an integer and written
  as one.  That changes neither the value nor the sign of a numeral, and it does not make its text
  longer.
* `NumberFormat.numeral_ruby`: the literal of a finite number spells the respelled numeral of its
  plain text.
* `NumberFormat.head?_text` and `Decimal.head?_intText`: a minus sign at the front of a text is the
  sign of the number.  The infinities are covered, and so are the zeros, which compare equal but
  are written with their signs.

`Value.number_keeps_value_and_sign` collects this for the literals that nodes are rendered as.
-/

set_option autoImplicit false

namespace TerseRuby

open Decimal (isDigit natOf natText intText tenPow scanNumeral)

/-! ## Respelling an exponent -/

namespace Decimal

theorem natOf_lt {digits : List Char} (h : ∀ c ∈ digits, isDigit c = true) :
    natOf digits < tenPow digits.length := by
  induction digits using List.reverseRecOn with
  | nil => decide
  | append_singleton digits c ih =>
    rw [List.forall_mem_append, List.forall_mem_singleton] at h
    have hc : c.toNat - '0'.toNat < 10 :=
      forall_isDigit (P := fun c => c.toNat - '0'.toNat < 10) (by decide) h.2
    have hfront := ih h.1
    rw [natOf_concat, List.length_append, List.length_singleton, tenPow_succ]
    omega

/-- Reading digits and writing the number makes no more of them. -/
theorem length_natText_natOf_le {digits : List Char} (hne : digits ≠ [])
    (h : ∀ c ∈ digits, isDigit c = true) : (natText (natOf digits)).length ≤ digits.length :=
  (length_natText_le_iff (List.length_pos_iff.mpr hne)).mpr (natOf_lt h)

end Decimal

namespace Decimal.Numeral

/-- A numeral whose exponent is spelled like an integer: without zeros before other digits, and
without a sign if it is a zero. -/
def respelled (n : Numeral) : Numeral :=
  { n with exponent := n.exponent.map fun e => (e.1 && natOf e.2 != 0, natText (natOf e.2)) }

/-- An exponent is not written with zeros in front. -/
def IsTight (n : Numeral) : Prop :=
  ∀ e ∈ n.exponent, e.2 = ['0'] ∨ e.2.head? ≠ some '0'

theorem isTight_respelled (n : Numeral) : n.respelled.IsTight := by
  intro e he
  obtain ⟨_, -, rfl⟩ := Option.mem_map.mp he
  exact leading_natText _

theorem toDecimal_respelled (n : Numeral) : n.respelled.toDecimal = n.toDecimal := by
  obtain ⟨negative, whole, fraction, _ | ⟨_ | _, digits⟩⟩ := n
  · rfl
  · simp only [respelled, toDecimal, Option.map_some, Bool.false_and, natOf_natText]
  · -- An exponent of zero loses its sign.
    by_cases hzero : natOf digits = 0
    · simp [respelled, toDecimal, hzero, natOf_natText]
    · have hsign : (natOf digits != 0) = true := bne_iff_ne.mpr hzero
      simp only [respelled, toDecimal, Option.map_some, Bool.true_and, hsign, natOf_natText]

/-- With a plus sign, an exponent of either sign has one character for it. -/
theorem length_exponentChars_true (e : Bool × List Char) :
    (exponentChars true (some e)).length = e.2.length + 2 := by
  obtain ⟨_ | _, digits⟩ := e <;> rfl

theorem length_exponentChars_false_le (e : Bool × List Char) :
    (exponentChars false (some e)).length ≤ e.2.length + 2 := by
  obtain ⟨_ | _, digits⟩ := e
  · exact Nat.le_succ _
  · exact Nat.le_refl _

/-- **Respelling makes no text longer.** -/
theorem length_respelled_le {n : Numeral} (h : n.IsProper) :
    (n.respelled.chars false).length ≤ (n.chars true).length := by
  have hexponent : (exponentChars false n.respelled.exponent).length ≤
      (exponentChars true n.exponent).length := by
    rw [respelled]
    cases hn : n.exponent with
    | none => exact Nat.le_refl 0
    | some e =>
      obtain ⟨hne, hdigits⟩ := h.exponent e hn
      have hlength := length_natText_natOf_le hne hdigits
      refine Nat.le_trans (length_exponentChars_false_le _) ?_
      rw [length_exponentChars_true]
      exact Nat.add_le_add_right hlength 2
  have hunsigned : (n.respelled.unsignedChars false).length ≤ (n.unsignedChars true).length := by
    rw [unsignedChars, unsignedChars, List.length_append, List.length_append, List.length_append,
      List.length_append]
    exact Nat.add_le_add_left (Nat.add_le_add_left hexponent _) _
  rw [chars, chars, respelled]
  cases n.negative with
  | false => exact hunsigned
  | true => exact Nat.succ_le_succ hunsigned

/-- Without a plus sign in the exponent there is none in a numeral. -/
theorem plus_not_mem_chars {n : Numeral} (h : n.IsProper) : '+' ∉ n.chars false := by
  have hrun {digits : List Char} (hdigits : IsRun digits) : '+' ∉ digits :=
    fun hmem => (isDigit_ne_sign (hdigits.2 '+' hmem)).2 rfl
  have hfraction : '+' ∉ fractionChars n.fraction := by
    cases hfraction : n.fraction with
    | none => exact List.not_mem_nil
    | some digits => simpa [fractionChars] using hrun (h.fraction digits hfraction)
  have hexponent : '+' ∉ exponentChars false n.exponent := by
    cases hexponent : n.exponent with
    | none => exact List.not_mem_nil
    | some e =>
      obtain ⟨_ | _, digits⟩ := e <;> simpa [exponentChars] using hrun (h.exponent _ hexponent)
  have hunsigned : '+' ∉ n.unsignedChars false := by
    simpa [unsignedChars] using ⟨hrun h.whole, hfraction, hexponent⟩
  rw [chars, NumberFormat.signed]
  split
  · simpa using hunsigned
  · exact hunsigned

theorem head?_chars {n : Numeral} (h : n.IsProper) (plusSign : Bool) :
    (n.chars plusSign).head? = some '-' ↔ n.negative = true := by
  obtain ⟨d, ds, hwhole⟩ := List.exists_cons_of_ne_nil h.whole.1
  have hd : d ≠ '-' := (isDigit_ne_sign (h.whole.2 d (hwhole ▸ List.mem_cons_self))).1
  rw [chars, NumberFormat.signed, unsignedChars, hwhole]
  cases n.negative with
  | true => simp
  | false => simpa using hd

end Decimal.Numeral

theorem Decimal.head?_intText (n : Int) : (intText n).head? = some '-' ↔ n < 0 := by
  rw [← Numeral.chars_ofInt false, Numeral.head?_chars (Numeral.isProper_ofInt n)]
  exact decide_eq_true_iff

/-! ## The text of a floating-point number -/

namespace NumberFormat

open Decimal (Numeral)

/-- **The literal of a decimal is its plain text with the exponent respelled.** -/
theorem numeral_ruby (negative : Bool) (x : Decimal) :
    ruby.numeral negative x = (plain.numeral negative x).respelled := by
  rw [numeral, numeral]
  split
  · rw [positionalNumeral]
    split <;> rfl
  · have hne : natText (significant x).2.natAbs ≠ [] := Decimal.natText_ne_nil _
    have hwidth : 1 - (natText (significant x).2.natAbs).length = 0 :=
      Nat.sub_eq_zero_of_le (List.length_pos_iff.mpr hne)
    have hsign : (decide ((significant x).2 < 0) && (significant x).2.natAbs != 0) =
        decide ((significant x).2 < 0) := by
      grind
    simp only [scientificNumeral, Numeral.respelled, Option.map_some, Decimal.natOf_zeros_append,
      Decimal.natOf_natText, hsign, ruby, hwidth, List.replicate_zero, List.nil_append]

theorem scanNumeral_text (format : NumberFormat) (negative : Bool) (exponent : Fin 2047)
    (fraction : Fin Double.fractions) :
    scanNumeral (format.text (.finite negative exponent fraction)) =
      some (format.numeral negative (Double.shortest exponent fraction), []) := by
  have hends : Numeral.Ends [] := by rintro c ⟨⟩
  have hscan := Numeral.scanNumeral_chars format.plusSign
    (isProper_numeral_shortest format negative exponent fraction) hends
  rwa [List.append_nil, chars_numeral] at hscan

theorem head?_text {format : NumberFormat} (hnan : format.nan.toList.head? ≠ some '-')
    (hinfinity : format.infinity.toList.head? ≠ some '-') (x : Double) :
    (format.text x).head? = some '-' ↔ x.isNegative = true := by
  cases x with
  | nan => simpa [text, Double.isNegative] using hnan
  | infinity negative =>
    cases negative with
    | true => simp [text, signed, Double.isNegative]
    | false => simpa [text, signed, Double.isNegative] using hinfinity
  | finite negative exponent fraction =>
    rw [text, ← chars_numeral, Numeral.head?_chars (isProper_numeral_shortest ..),
      negative_numeral, Double.isNegative]

theorem head?_rubyText (x : Double) : (ruby.text x).head? = some '-' ↔ x.isNegative = true :=
  head?_text (by decide) (by decide) x

end NumberFormat

/-! ## Nodes -/

namespace Value

open Decimal (Numeral)

variable {field : Field → Value} {n : Int} {x : Double} {s : Setting}

/-- In every setting a tree is written as one text of characters, which begins with a minus sign
exactly when the tree is negative, and exactly then the tree counts as an application of the
sign. -/
def ShowsSign (v : Value) (negative : Bool) : Prop :=
  ∃ text, (∀ s, Writer.Writes s (v.rendition.write .expression) (Text.ofChars text)) ∧
    (text.head? = some '-' ↔ negative = true) ∧
    (v.operator? = .ok (some .negative) ↔ negative = true)

/-- In every setting a tree has no text, for one reason; it counts as an application of the sign
exactly when it is negative. -/
def HasNoText (v : Value) (negative : Bool) (fault : Fault) : Prop :=
  (∀ s locals, ((v.rendition.write .expression).run s).run locals = .error fault) ∧
    (v.operator? = .ok (some .negative) ↔ negative = true)

/-- The sign that a number literal counts as an application of is the sign of its value. -/
theorem signOperator?_eq_negative_iff {c : Scalar} (h : Literal.isNumber c = true) :
    (scalar c).signOperator? = .ok (some .negative) ↔ Literal.isNegative c = true := by
  rw [signOperator?, if_pos h]
  cases Literal.isNegative c <;> simp

/-! ### Integers -/

section Integer

variable (h : field .value = .scalar (.int n))

include h

theorem writes_integer (hshort : Decimal.isLong n = false) :
    Writer.Writes s ((rendition (.node .integer field)).write .expression)
      (Text.ofChars (intText n)) := by
  have hdisplay : (Scalar.int n).display.toList = intText n := String.toList_ofList
  have hliteral : Rules.integer (.scalar (.int n)) = .ok (Draft.lit (Scalar.int n).display) := by
    rw [Rules.integer, shown_int, hshort]
    rfl
  change Writer.Writes s (liftM (Rules.integer (field .value).rendition.value)) _
  rw [rendition_value, h, hliteral, ← hdisplay]
  exact Writer.yields_lift rfl (Draft.build_lit _)

theorem operator?_integer_iff :
    (node .integer field).operator? = .ok (some .negative) ↔
      Literal.isNegative (.int n) = true := by
  rw [operator?, h, signOperator?_eq_negative_iff rfl]

theorem showsSign_integer (hshort : Decimal.isLong n = false) :
    (node .integer field).ShowsSign (Literal.isNegative (.int n)) := by
  refine ⟨intText n, fun s => writes_integer h hshort, ?_, operator?_integer_iff h⟩
  rw [Decimal.head?_intText, Literal.isNegative, decide_eq_true_iff]

theorem hasNoText_integer (hlong : Decimal.isLong n = true) :
    (node .integer field).HasNoText (Literal.isNegative (.int n)) .numberTooLong := by
  refine ⟨fun s locals => ?_, operator?_integer_iff h⟩
  have hliteral : Rules.integer (.scalar (.int n)) = .error .numberTooLong := by
    rw [Rules.integer, shown_int, hlong]
    rfl
  change ((liftM (Rules.integer (field .value).rendition.value) : Writer Draft).run s).run locals
    = _
  rw [rendition_value, h, hliteral]
  rfl

end Integer

/-! ### Floating-point numbers -/

theorem writes_float {c : Scalar} {text : List Char} (h : field .value = .scalar c)
    (htext : Literal.float c = .ok text) :
    Writer.Writes s ((rendition (.node .float field)).write .expression) (Text.ofChars text) := by
  have hliteral : Rules.float (.scalar c) = .ok (Draft.of (Text.ofChars text)) := by
    rw [Rules.float, htext]
    rfl
  change Writer.Writes s (liftM (Rules.float (field .value).rendition.value)) _
  rw [rendition_value, h, hliteral]
  exact Writer.yields_lift rfl (Draft.build_of _)

theorem operator?_float_iff {c : Scalar} (h : field .value = .scalar c)
    (hnumber : Literal.isNumber c = true) :
    (node .float field).operator? = .ok (some .negative) ↔ Literal.isNegative c = true := by
  rw [operator?, h, signOperator?_eq_negative_iff hnumber]

theorem showsSign_float (h : field .value = .scalar (.float x)) :
    (node .float field).ShowsSign (Literal.isNegative (.float x)) := by
  refine ⟨NumberFormat.ruby.text x, fun s => writes_float h rfl, ?_, operator?_float_iff h rfl⟩
  rw [NumberFormat.head?_rubyText, Literal.isNegative]

/-- No numeral of an integer has an exponent. -/
theorem takeWhile_intText (n : Int) : (intText n).takeWhile (· != 'e') = intText n := by
  have hrun (m : Nat) : ∀ c ∈ natText m, (c != 'e') = true := fun c hc =>
    Decimal.forall_isDigit (P := fun c => (c != 'e') = true) (by decide)
      (Decimal.isDigit_of_mem_natText hc)
  rw [List.takeWhile_eq_self_iff]
  cases n with
  | ofNat m => exact hrun m
  | negSucc m => exact List.forall_mem_cons.mpr ⟨by decide, hrun (m + 1)⟩

/-- An integer in the place of a floating-point number is written in full if it can be
converted. -/
theorem showsSign_float_int (h : field .value = .scalar (.int n))
    (hconverts : (Double.ofInt? n).isSome = true) :
    (node .float field).ShowsSign (Literal.isNegative (.int n)) := by
  have hdisplay : (Scalar.int n).display.toList = intText n := String.toList_ofList
  have htext : Literal.float (.int n) = .ok (intText n) := by
    change (if _ then _ else _) = _
    rw [if_pos hconverts, hdisplay, takeWhile_intText]
  refine ⟨intText n, fun s => writes_float h htext, ?_, operator?_float_iff h rfl⟩
  rw [Decimal.head?_intText, Literal.isNegative, decide_eq_true_iff]

theorem hasNoText_float_int (h : field .value = .scalar (.int n))
    (hconverts : (Double.ofInt? n).isSome = false) :
    (node .float field).HasNoText (Literal.isNegative (.int n)) .numberTooLarge := by
  refine ⟨fun s locals => ?_, operator?_float_iff h rfl⟩
  have htext : Literal.float (.int n) = .error .numberTooLarge :=
    if_neg (Bool.not_eq_true _ ▸ hconverts)
  have hliteral : Rules.float (.scalar (.int n)) = .error .numberTooLarge := by
    rw [Rules.float, htext]
    rfl
  change ((liftM (Rules.float (field .value).rendition.value) : Writer Draft).run s).run locals = _
  rw [rendition_value, h, hliteral]
  rfl

/-! ### Value and sign -/

/-- **Number literals keep value and sign.**  The literal of a finite floating-point number and its
plain text are numerals with one value and one sign, which is that of the number; the exponent of
the literal has no plus sign and no zeros in front, and the literal is not the longer one.

The node of an integer with no more digits than are written, of any floating-point number, and of
an integer in the place of one that can be converted is rendered with a minus sign in front exactly
when its value counts as negative, and exactly then it counts as an application of the sign.  All
other integers are not rendered at all, but they count as applications of the sign like these. -/
theorem number_keeps_value_and_sign :
    (∀ negative exponent fraction, ∃ plain literal : Numeral,
      scanNumeral (NumberFormat.plain.text (.finite negative exponent fraction)) =
        some (plain, []) ∧
      scanNumeral (NumberFormat.ruby.text (.finite negative exponent fraction)) =
        some (literal, []) ∧
      literal.isWhole = false ∧ literal.toDecimal.value = plain.toDecimal.value ∧
      literal.negative = negative ∧ plain.negative = negative ∧
      '+' ∉ NumberFormat.ruby.text (.finite negative exponent fraction) ∧ literal.IsTight ∧
      (NumberFormat.ruby.text (.finite negative exponent fraction)).length ≤
        (NumberFormat.plain.text (.finite negative exponent fraction)).length) ∧
    (∀ (n : Int) (field : Field → Value), field .value = .scalar (.int n) →
      (Decimal.isLong n = false →
        (node .integer field).ShowsSign (Literal.isNegative (.int n))) ∧
      (Decimal.isLong n = true →
        (node .integer field).HasNoText (Literal.isNegative (.int n)) .numberTooLong)) ∧
    (∀ (x : Double) (field : Field → Value), field .value = .scalar (.float x) →
      (node .float field).ShowsSign (Literal.isNegative (.float x))) ∧
    ∀ (n : Int) (field : Field → Value), field .value = .scalar (.int n) →
      ((Double.ofInt? n).isSome = true →
        (node .float field).ShowsSign (Literal.isNegative (.int n))) ∧
      ((Double.ofInt? n).isSome = false →
        (node .float field).HasNoText (Literal.isNegative (.int n)) .numberTooLarge) := by
  refine ⟨fun negative exponent fraction => ?_,
    fun _ _ h => ⟨showsSign_integer h, hasNoText_integer h⟩, fun _ _ => showsSign_float,
    fun _ _ h => ⟨showsSign_float_int h, hasNoText_float_int h⟩⟩
  have hplain := NumberFormat.scanNumeral_text .plain negative exponent fraction
  have hliteral := NumberFormat.scanNumeral_text .ruby negative exponent fraction
  have hproper :=
    NumberFormat.isProper_numeral_shortest .plain negative exponent fraction
  have hrespelled :=
    NumberFormat.numeral_ruby negative (Double.shortest exponent fraction)
  refine ⟨_, _, hplain, hliteral, NumberFormat.isWhole_numeral .., ?_,
    NumberFormat.negative_numeral .., NumberFormat.negative_numeral .., ?_, ?_, ?_⟩
  · rw [hrespelled, Numeral.toDecimal_respelled]
  · rw [NumberFormat.text, ← NumberFormat.chars_numeral]
    exact Numeral.plus_not_mem_chars (NumberFormat.isProper_numeral_shortest ..)
  · exact hrespelled ▸ Numeral.isTight_respelled _
  · rw [NumberFormat.text, NumberFormat.text, ← NumberFormat.chars_numeral,
      ← NumberFormat.chars_numeral, hrespelled]
    exact Numeral.length_respelled_le hproper

/-- Minus one as an integer and in the place of a floating-point number, the negative zero, and the
value that is no number. -/
theorem number_keeps_value_and_sign_zero :
    (node .integer fun _ => .scalar (.int (-1))).ShowsSign true ∧
      (node .float fun _ => .scalar (.float (.zero true))).ShowsSign true ∧
      (node .float fun _ => .scalar (.float .nan)).ShowsSign false ∧
      (node .float fun _ => .scalar (.int (-1))).ShowsSign true := by
  have hconverts : (Double.ofInt? (-1)).isSome = true := by decide +kernel
  exact ⟨(number_keeps_value_and_sign.2.1 (-1) _ rfl).1 (by decide),
    number_keeps_value_and_sign.2.2.1 (.zero true) _ rfl,
    number_keeps_value_and_sign.2.2.1 .nan _ rfl,
    (number_keeps_value_and_sign.2.2.2 (-1) _ rfl).1 hconverts⟩

/-- There are negative integers that have no text: with too many digits for the literal of an
integer, or too large to be converted where a floating-point number should be. -/
theorem integers_without_text :
    Literal.isNegative (.int (-Int.ofNat (tenPow 4300))) = true ∧
      (node .integer fun _ => .scalar (.int (-Int.ofNat (tenPow 4300)))).HasNoText true
        .numberTooLong ∧
      Literal.isNegative (.int (-Int.ofNat (tenPow 400))) = true ∧
      (node .float fun _ => .scalar (.int (-Int.ofNat (tenPow 400)))).HasNoText true
        .numberTooLarge := by
  have hnegative (k : Nat) : Literal.isNegative (.int (-Int.ofNat (tenPow k))) = true :=
    decide_eq_true (Int.neg_neg_of_pos (Int.natCast_pos.mpr (Decimal.tenPow_pos k)))
  have hlong : Decimal.isLong (-Int.ofNat (tenPow 4300)) = true :=
    Decimal.isLong_neg_ofNat (Nat.le_refl (tenPow Decimal.digitLimit))
  have hlarge : (Double.ofInt? (-Int.ofNat (tenPow 400))).isSome = false := by decide +kernel
  exact ⟨hnegative _, hnegative 4300 ▸ hasNoText_integer rfl hlong,
    hnegative _, hnegative 400 ▸ hasNoText_float_int rfl hlarge⟩

end Value
end TerseRuby
