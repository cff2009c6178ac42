import TerseRuby.Literal.String

/-!
# Reading string literals back

`Literal.string` spells a text as a string literal.  This file has the other direction, a scanner
for the literals of the language, and shows that the two agree.

* `Scanner.double` reads the inside of a double-quoted literal.  It knows the escapes of a
  backslash, of the quote, of a carriage return and of a number sign, and the escape by two
  hexadecimal digits, and it stops at the closing quote or where an interpolation opens.
* `Scanner.single` reads the inside of a single-quoted literal, where a backslash means itself
  unless a backslash or the quote follows.
* `Scanner.literal` reads a whole literal.

The one lemma that carries everything between double quotes is `double_escape_append`: scanning an
escaped text and then a tail is scanning the tail, with the text put in front.  It is stated for
every tail, because what an unescaped number sign means depends on the character after it, which
for the last one belongs to the tail.  `string_reads_back` is the result for whole literals.
-/

set_option autoImplicit false

namespace TerseRuby

/-! ## The scanner -/

namespace Scanner

/-- What ends the scan of a literal. -/
inductive Stop where
  /-- The closing quote. -/
  | quote
  /-- The opening of an interpolation. -/
  | interpolation
  deriving DecidableEq, Repr

/-- The part of a literal that was read. -/
structure Scan where
  /-- The characters that it stands for. -/
  content : List Char
  /-- What ended it. -/
  stop : Stop
  /-- What comes after. -/
  rest : List Char
  deriving DecidableEq, Repr

/-- A scan with more characters in front. -/
def Scan.after (text : List Char) (s : Scan) : Scan := { s with content := text ++ s.content }

/-- Whether a number sign before a text opens an interpolation. -/
def opens (text : List Char) : Bool := text.head?.any fun c => c == '\x7b' || c == '@' || c == '$'

/-- The character that a backslash and one further character stand for. -/
def shortEscape? (c : Char) : Option Char :=
  if c == '\\' || c == '"' || c == '#' then some c else if c == 'r' then some '\r' else none

/-- The inside of a double-quoted literal. -/
def double : List Char → Option Scan
  | [] => none
  | '"' :: rest => some ⟨[], .quote, rest⟩
  | '\\' :: 'x' :: a :: b :: rest =>
    match Hex.valueOf? [a, b] with
    | some code => (double rest).map (Scan.after [Char.ofNat code])
    | none => none
  | '\\' :: c :: rest =>
    match shortEscape? c with
    | some meant => (double rest).map (Scan.after [meant])
    | none => none
  | '#' :: rest =>
    if opens rest then some ⟨[], .interpolation, rest⟩ else (double rest).map (Scan.after ['#'])
  | c :: rest => (double rest).map (Scan.after [c])

/-- The inside of a single-quoted literal. -/
def single : List Char → Option Scan
  | [] => none
  | '\'' :: rest => some ⟨[], .quote, rest⟩
  | '\\' :: '\\' :: rest => (single rest).map (Scan.after ['\\'])
  | '\\' :: '\'' :: rest => (single rest).map (Scan.after ['\''])
  | c :: rest => (single rest).map (Scan.after [c])

/-- A string literal. -/
def literal : List Char → Option Scan
  | '"' :: rest => double rest
  | '\'' :: rest => single rest
  | _ => none

end Scanner

/-! ## Between double quotes -/

namespace Scanner

open Literal

theorem toNat_lt_of_isControl {c : Char} (h : CharClass.isControl c = true) : c.toNat < 128 := by
  simp only [CharClass.isControl, Bool.or_eq_true, Bool.and_eq_true, decide_eq_true_eq,
    beq_iff_eq] at h
  omega

/-- A single character opens an interpolation exactly where the spelling takes it to. -/
theorem contains_interpolationOpeners_singleton (c : Char) (rest : List Char) :
    interpolationOpeners.contains [c] = opens (c :: rest) := by
  by_cases h : c = '\x7b' ∨ c = '@' ∨ c = '$'
  · obtain rfl | rfl | rfl := h <;> rfl
  · rw [not_or, not_or] at h
    simp [interpolationOpeners, opens, h]

/-- An escape begins with a backslash or with the character itself. -/
theorem head?_escapeChar (c : Char) (next : List Char) :
    (escapeChar c next).head? = some '\\' ∨ (escapeChar c next).head? = some c := by
  simp only [escapeChar, beq_iff_eq]
  repeat' split
  all_goals simp_all

/-- So an escaped text opens an interpolation only where the text does. -/
theorem opens_escape_append {c : Char} {text tail : List Char} (following : List Char)
    (h : opens (c :: text) = false) : opens (escape following (c :: text) ++ tail) = false := by
  rw [escape]
  obtain hc | hc := head?_escapeChar c (nextText text following)
  · rw [opens, List.append_assoc, List.head?_append, hc]
    rfl
  · rw [opens, List.append_assoc, List.head?_append, hc]
    exact h

/-- One escape is read as the character it was made for, if a number sign left bare does not open
an interpolation with what comes next. -/
theorem double_escapeChar_append (c : Char) (next tail : List Char)
    (h : opens tail = true → interpolationOpeners.contains next = true) :
    double (escapeChar c next ++ tail) = (double tail).map (Scan.after [c]) := by
  rw [escapeChar]
  by_cases hbackslash : c = '\\'
  · subst hbackslash; rfl
  by_cases hquote : c = '"'
  · subst hquote; rfl
  by_cases hreturn : c = '\r'
  · subst hreturn; rfl
  by_cases hsign : c = '#'
  · subst hsign
    change double ((if interpolationOpeners.contains next then ['\\', '#'] else ['#']) ++ tail) = _
    by_cases hnext : interpolationOpeners.contains next = true
    · rw [if_pos hnext]
      rfl
    · have hopens : ¬opens tail = true := fun ho => hnext (h ho)
      rw [if_neg hnext, List.singleton_append, double, if_neg hopens]
  by_cases hcontrol : CharClass.isControl c = true
  · have hcode : c.toNat < 16 ^ 2 := Nat.lt_trans (toNat_lt_of_isControl hcontrol) (by decide)
    have hvalue := Hex.valueOf?_upper hcode
    simp only [Hex.upper, Hex.fixed, List.nil_append, List.cons_append] at hvalue
    simp [hbackslash, hquote, hreturn, hsign, hcontrol, Hex.upper, Hex.fixed, double, hvalue]
  · simp [hbackslash, hquote, hreturn, hsign, hcontrol, double]

/-- **Scanning undoes escaping.**  What follows the text may be anything, as long as it opens an
interpolation only if that was taken into account. -/
theorem double_escape_append (following text tail : List Char)
    (h : opens tail = true → interpolationOpeners.contains following = true) :
    double (escape following text ++ tail) = (double tail).map (Scan.after text) := by
  induction text with
  | nil =>
    have hid : (Scan.after []) = id := rfl
    rw [escape, List.nil_append, hid, Option.map_id, id]
  | cons c rest ih =>
    rw [escape, List.append_assoc, double_escapeChar_append, ih, Option.map_map]
    · rfl
    · intro ho
      cases rest with
      | nil => exact h ho
      | cons d rest =>
        rw [nextText, contains_interpolationOpeners_singleton d rest]
        cases hd : opens (d :: rest) with
        | true => rfl
        | false => rw [opens_escape_append following hd] at ho; exact ho

theorem double_doubleQuoted (text rest : List Char) :
    double (escape ['"'] text ++ '"' :: rest) = some ⟨text, .quote, rest⟩ := by
  rw [double_escape_append _ _ _ (by simp [opens])]
  simp [double, Scan.after]

/-! ## Between single quotes -/

theorem single_escape_append (text tail : List Char) :
    single (text.flatMap singleEscapeChar ++ tail) = (single tail).map (Scan.after text) := by
  induction text with
  | nil =>
    have hid : (Scan.after []) = id := rfl
    rw [List.flatMap_nil, List.nil_append, hid, Option.map_id, id]
  | cons c rest ih =>
    have hstep : single (singleEscapeChar c ++ (rest.flatMap singleEscapeChar ++ tail)) =
        (single (rest.flatMap singleEscapeChar ++ tail)).map (Scan.after [c]) := by
      by_cases hbackslash : c = '\\'
      · subst hbackslash; rfl
      by_cases hquote : c = '\''
      · subst hquote; rfl
      simp [singleEscapeChar, single, hbackslash, hquote]
    rw [List.flatMap_cons, List.append_assoc, hstep, ih, Option.map_map]
    rfl

end Scanner

/-! ## Whole literals -/

namespace Literal

open Scanner

/-- A character that may stand in a literal as it is. -/
def IsPlain (c : Char) : Prop := (c.toNat < 0x20 → c = '\n' ∨ c = '\t') ∧ c.toNat ≠ 0x7F

theorem isPlain_of_not_isControl {c : Char} (h : CharClass.isControl c = false) : IsPlain c := by
  simp only [CharClass.isControl, Bool.or_eq_false_iff, Bool.and_eq_false_iff,
    decide_eq_false_iff_not, bne_eq_false_iff_eq, beq_eq_false_iff_ne] at h
  refine ⟨fun hlow => ?_, h.2⟩
  obtain (hhigh | rfl) | rfl := h.1
  · exact absurd hlow hhigh
  · exact Or.inl rfl
  · exact Or.inr rfl

instance : DecidablePred IsPlain := fun _ => inferInstanceAs (Decidable (_ ∧ _))

/-- Every character of an escape may stand in a literal as it is. -/
theorem isPlain_of_mem_escapeChar {c d : Char} {next : List Char} (h : d ∈ escapeChar c next) :
    IsPlain d := by
  rw [escapeChar] at h
  split at h
  · exact (by decide : ∀ d ∈ ['\\', '\\'], IsPlain d) d h
  split at h
  · exact (by decide : ∀ d ∈ ['\\', '"'], IsPlain d) d h
  split at h
  · exact (by decide : ∀ d ∈ ['\\', 'r'], IsPlain d) d h
  split at h
  · split at h
    · exact (by decide : ∀ d ∈ ['\\', '#'], IsPlain d) d h
    · exact (by decide : ∀ d ∈ ['#'], IsPlain d) d h
  split at h
  · rw [List.mem_cons, List.mem_cons] at h
    obtain rfl | rfl | h := h
    · decide
    · decide
    · exact Hex.forall_mem_fixed (by decide) d h
  · rename_i hcontrol
    rw [List.mem_singleton] at h
    exact h ▸ isPlain_of_not_isControl (Bool.eq_false_iff.mpr hcontrol)

theorem isPlain_of_mem_escape {d : Char} {following text : List Char}
    (h : d ∈ escape following text) : IsPlain d := by
  induction text with
  | nil => exact nomatch h
  | cons c rest ih =>
    rw [escape, List.mem_append] at h
    exact h.elim isPlain_of_mem_escapeChar ih

theorem isPlain_of_mem_doubleQuoted {d : Char} {text : List Char} (h : d ∈ doubleQuoted text) :
    IsPlain d := by
  have hquote : IsPlain '"' := by decide
  rw [doubleQuoted, List.mem_append, List.mem_cons, List.mem_singleton] at h
  obtain (rfl | h) | rfl := h
  · exact hquote
  · exact isPlain_of_mem_escape h
  · exact hquote

theorem isPlain_of_mem_singleQuoted {d : Char} {text : List Char}
    (htext : isSingleQuotable text = true) (h : d ∈ singleQuoted text) : IsPlain d := by
  have hmarks : ∀ d ∈ ['\\', '\''], IsPlain d := by decide
  rw [singleQuoted, List.mem_append, List.mem_cons, List.mem_flatMap, List.mem_singleton] at h
  obtain (rfl | ⟨c, hc, hd⟩) | rfl := h
  · exact hmarks _ (by decide)
  · have hplain : IsPlain c := by
      refine isPlain_of_not_isControl ?_
      simp only [isSingleQuotable, Bool.not_eq_true', List.any_eq_false] at htext
      exact Bool.eq_false_iff.mpr (htext c hc)
    rw [singleEscapeChar] at hd
    split at hd
    · rw [List.mem_cons, List.mem_singleton] at hd
      exact hd.elim (fun hd => hmarks d (by simp [hd])) fun hd => hd ▸ hplain
    · exact List.mem_singleton.mp hd ▸ hplain
  · exact hmarks _ (by decide)

theorem length_string_le (text : List Char) :
    (string text).length ≤ (doubleQuoted text).length := by
  rw [string]
  split
  · rename_i h
    simp only [Bool.and_eq_true, decide_eq_true_eq] at h
    exact Nat.le_of_lt h.2
  · exact Nat.le_refl _

/-- **A string literal reads back.**  Whatever text comes after it, the scanner stops where the
literal ends, meets no interpolation on the way and has read the content; no control character but
newline and tab stands in the literal; and it is never longer than between double quotes. -/
theorem string_reads_back (content rest : List Char) :
    Scanner.literal (string content ++ rest) = some ⟨content, .quote, rest⟩ ∧
      (∀ c ∈ string content, IsPlain c) ∧
      (string content).length ≤ (doubleQuoted content).length := by
  refine ⟨?_, fun c hc => ?_, length_string_le content⟩
  · rw [string]
    split
    · rw [singleQuoted, List.append_assoc, List.cons_append, Scanner.literal,
        single_escape_append]
      simp [single, Scan.after]
    · rw [doubleQuoted, List.append_assoc, List.cons_append, Scanner.literal]
      exact double_doubleQuoted content rest
  · rw [string] at hc
    split at hc
    · rename_i h
      rw [Bool.and_eq_true] at h
      exact isPlain_of_mem_singleQuoted h.1 hc
    · exact isPlain_of_mem_doubleQuoted hc

end Literal
end TerseRuby
