import TerseRuby.Proofs.Literal.Scanner

/-!
# Escaping piece by piece

The escape of a text depends on what follows it, because a number sign is escaped where the next
character would make it open an interpolation.  One character of what follows is all that matters,
so a text can be escaped in pieces: every piece is told the first character of the next one.

* `Literal.escape_append` is that rule.
* `Scanner.unescape` takes the escapes out again.  It reads one unit after the other, a character
  that stands for itself or a whole escape, and looks at nothing beyond the unit.  So it gives the
  text back whatever the escape was told to follow, rightly or not (`unescape_escape`).
* `Scanner.IsBareSign` says that a number sign in an escaped text is not part of an escape: what
  stands before it is made of whole units.
* `Literal.escape_compositional` puts this together, with what the look-ahead is for: no bare sign
  of an escaped text is followed by a character that makes it open an interpolation, the last one
  included, whose neighbour is outside of the text.

The step in between is `exists_eq_escape_of_readable`: a beginning of an escaped text that is made
of whole units is itself the escape of a beginning of the text.  It turns a place in the escaped
text into a place in the text, where the rule that made the escape can be looked up.
-/

set_option autoImplicit false

namespace TerseRuby

namespace Scanner

/-! ## Units -/

/-- The first unit between double quotes: the character it stands for, and what comes after it. -/
def unit? : List Char → Option (Char × List Char)
  | '\\' :: 'x' :: a :: b :: rest =>
    (Hex.valueOf? [a, b]).map fun code => (Char.ofNat code, rest)
  | '\\' :: c :: rest => (shortEscape? c).map fun meant => (meant, rest)
  | c :: rest => if c = '\\' then none else some (c, rest)
  | [] => none

/-- The three forms of a unit: an escape by a code, a short escape, a character that is none. -/
theorem unit?_eq_some {text rest : List Char} {c : Char} (h : unit? text = some (c, rest)) :
    (∃ a b code, text = '\\' :: 'x' :: a :: b :: rest ∧ Hex.valueOf? [a, b] = some code ∧
        c = Char.ofNat code) ∨
      (∃ d, text = '\\' :: d :: rest ∧ d ≠ 'x' ∧ shortEscape? d = some c) ∨
      (text = c :: rest ∧ c ≠ '\\') := by
  unfold unit? at h
  split at h
  case h_1 a b tail =>
    obtain ⟨code, hcode, heq⟩ := Option.map_eq_some_iff.mp h
    cases heq
    exact Or.inl ⟨a, b, code, rfl, hcode, rfl⟩
  case h_2 d tail _ =>
    obtain ⟨meant, hmeant, heq⟩ := Option.map_eq_some_iff.mp h
    cases heq
    have hx : d ≠ 'x' := by rintro rfl; cases hmeant
    exact Or.inr (Or.inl ⟨d, rfl, hx, hmeant⟩)
  case h_3 d tail _ _ =>
    split at h
    · cases h
    · rename_i hd
      cases h
      exact Or.inr (Or.inr ⟨rfl, hd⟩)
  case h_4 => cases h

theorem length_lt_of_unit? {text rest : List Char} {c : Char} (h : unit? text = some (c, rest)) :
    rest.length < text.length := by
  obtain ⟨a, b, code, rfl, -, -⟩ | ⟨d, rfl, -, -⟩ | ⟨rfl, -⟩ := unit?_eq_some h
  all_goals simp only [List.length_cons]; omega

/-- A unit is read the same way whatever comes after it. -/
theorem unit?_append {text rest : List Char} {c : Char} (h : unit? text = some (c, rest))
    (tail : List Char) : unit? (text ++ tail) = some (c, rest ++ tail) := by
  obtain ⟨a, b, code, rfl, hcode, rfl⟩ | ⟨d, rfl, hx, hmeant⟩ | ⟨rfl, hc⟩ := unit?_eq_some h
  · simp [unit?, hcode]
  · simp [unit?, hx, hmeant]
  · simp [unit?, hc]

/-- One escape is one unit, whatever it was told to come before. -/
theorem unit?_escapeChar (c : Char) (next tail : List Char) :
    unit? (Literal.escapeChar c next ++ tail) = some (c, tail) := by
  rw [Literal.escapeChar]
  by_cases hbackslash : c = '\\'
  · subst hbackslash; rfl
  by_cases hquote : c = '"'
  · subst hquote; rfl
  by_cases hreturn : c = '\r'
  · subst hreturn; rfl
  by_cases hsign : c = '#'
  · subst hsign
    cases hnext : Literal.interpolationOpeners.contains next <;> simp [unit?, shortEscape?]
  by_cases hcontrol : CharClass.isControl c = true
  · have hcode : c.toNat < 16 ^ 2 := Nat.lt_trans (toNat_lt_of_isControl hcontrol) (by decide)
    have hvalue := Hex.valueOf?_upper hcode
    simp only [Hex.upper, Hex.fixed, List.nil_append, List.cons_append] at hvalue
    simp [hbackslash, hquote, hreturn, hsign, hcontrol, Hex.upper, Hex.fixed, unit?, hvalue]
  · simp [hbackslash, hquote, hreturn, hsign, hcontrol, unit?]

/-! ## Taking the escapes out -/

/-- A text between double quotes with its escapes taken out. -/
def unescape (text : List Char) : Option (List Char) :=
  if text.isEmpty then some []
  else
    match _h : unit? text with
    | none => none
    | some (c, rest) => (unescape rest).map (c :: ·)
termination_by text.length
decreasing_by exact length_lt_of_unit? _h

@[simp] theorem unescape_nil : unescape [] = some [] := by
  rw [unescape, List.isEmpty_nil, if_pos rfl]

theorem unescape_of_unit? {text rest : List Char} {c : Char} (h : unit? text = some (c, rest)) :
    unescape text = (unescape rest).map (c :: ·) := by
  have htext : text.isEmpty = false := by
    cases text with
    | nil => cases h
    | cons => rfl
  rw [unescape, htext, if_neg Bool.false_ne_true]
  split
  · rename_i hnone
    rw [h] at hnone
    cases hnone
  · rename_i d tail hsome
    rw [h] at hsome
    cases hsome
    rfl

/-- A text that can be read begins with a unit, and what comes after it can be read. -/
theorem exists_unit?_of_unescape {text : List Char} (hne : text ≠ [])
    (h : (unescape text).isSome = true) :
    ∃ c rest, unit? text = some (c, rest) ∧ (unescape rest).isSome = true := by
  cases hunit : unit? text with
  | none =>
    have htext : text.isEmpty = false := by simpa using hne
    rw [unescape, htext, if_neg Bool.false_ne_true] at h
    split at h
    · cases h
    · rename_i c rest hsome
      rw [hunit] at hsome
      cases hsome
  | some unit =>
    refine ⟨unit.1, unit.2, rfl, ?_⟩
    rw [unescape_of_unit? hunit, Option.isSome_map] at h
    exact h

/-- **Taking the escapes out undoes escaping**, whatever the text was said to come before. -/
theorem unescape_escape (following text : List Char) :
    unescape (Literal.escape following text) = some text := by
  induction text with
  | nil => rw [Literal.escape, unescape_nil]
  | cons c rest ih =>
    rw [Literal.escape, unescape_of_unit? (unit?_escapeChar c _ _), ih, Option.map_some]

/-- A number sign that is not part of an escape stands between two parts of a text: what comes
before it is made of whole units. -/
structure IsBareSign (text before after : List Char) : Prop where
  /-- The number sign stands there. -/
  split : text = before ++ '#' :: after
  /-- No escape goes on into it. -/
  readable : (unescape before).isSome = true

end Scanner

namespace Literal

open Scanner

/-! ## One character of look-ahead -/

/-- Of what follows a text, only the first character is looked at. -/
theorem nextText_append (text following : List Char) (c : Char) (rest : List Char) :
    nextText (text ++ c :: rest) following = nextText text [c] := by
  cases text <;> rfl

/-- **A text can be escaped in pieces.**  The first is told the first character of the second. -/
theorem escape_append (following text : List Char) (c : Char) (rest : List Char) :
    escape following (text ++ c :: rest) = escape [c] text ++ escape following (c :: rest) := by
  induction text with
  | nil => rfl
  | cons d text ih =>
    rw [List.cons_append, escape, ih, nextText_append, escape.eq_2 [c], List.append_assoc]

/-- A beginning of an escaped text that is made of whole units is the escape of a beginning of the
text. -/
theorem exists_eq_escape_of_readable {following text tail before after : List Char}
    (h : escape following text ++ tail = before ++ after)
    (hlength : before.length < (escape following text).length)
    (hread : (unescape before).isSome = true) :
    ∃ first c rest, text = first ++ c :: rest ∧ before = escape [c] first := by
  induction text generalizing before with
  | nil => exact absurd hlength (Nat.not_lt_zero _)
  | cons c rest ih =>
    by_cases hne : before = []
    · exact ⟨[], c, rest, rfl, hne⟩
    obtain ⟨d, others, hunit, hothers⟩ := exists_unit?_of_unescape hne hread
    -- the same unit is read on both sides
    have hboth := unit?_append hunit after
    rw [← h, escape, List.append_assoc, unit?_escapeChar] at hboth
    obtain ⟨rfl, hrest⟩ : c = d ∧ escape following rest ++ tail = others ++ after := by
      simpa using hboth
    have hbefore : before = escapeChar c (nextText rest following) ++ others := by
      rw [escape, List.append_assoc, hrest, ← List.append_assoc] at h
      exact (List.append_cancel_right h).symm
    have hshorter : others.length < (escape following rest).length := by
      rw [hbefore, escape, List.length_append, List.length_append] at hlength
      omega
    obtain ⟨first, e, last, rfl, rfl⟩ := ih hrest hshorter hothers
    refine ⟨c :: first, e, last, rfl, ?_⟩
    rw [hbefore, nextText_append, escape]

/-- A bare number sign is the escape of one, and nothing was told to come next that would make it
open an interpolation. -/
theorem eq_of_escapeChar_eq_sign {c : Char} {next tail after : List Char}
    (h : escapeChar c next ++ tail = '#' :: after) :
    c = '#' ∧ tail = after ∧ interpolationOpeners.contains next = false := by
  have hunit := unit?_escapeChar c next tail
  rw [h] at hunit
  obtain ⟨rfl, rfl⟩ : '#' = c ∧ after = tail := by simpa [unit?] using hunit
  refine ⟨rfl, rfl, ?_⟩
  cases hnext : interpolationOpeners.contains next with
  | false => rfl
  | true =>
    rw [escapeChar, hnext] at h
    cases h

/-- **No bare number sign of an escaped text opens an interpolation**, if what comes after the text
does so only where that was taken into account. -/
theorem not_opens_of_isBareSign {following text tail before after : List Char}
    (htail : opens tail = true → interpolationOpeners.contains following = true)
    (hsign : IsBareSign (escape following text ++ tail) before after)
    (hlength : before.length < (escape following text).length) : opens after = false := by
  obtain ⟨first, c, rest, rfl, rfl⟩ :=
    exists_eq_escape_of_readable hsign.split hlength hsign.readable
  have hsplit := hsign.split
  rw [escape_append, List.append_assoc, List.append_cancel_left_eq, escape,
    List.append_assoc] at hsplit
  obtain ⟨rfl, rfl, hnext⟩ := eq_of_escapeChar_eq_sign hsplit
  cases rest with
  | nil =>
    rw [escape, List.nil_append, Bool.eq_false_iff]
    exact fun ho => Bool.eq_false_iff.mp hnext (htail ho)
  | cons d rest =>
    rw [nextText, contains_interpolationOpeners_singleton d rest] at hnext
    exact opens_escape_append following hnext

/-- **Escaping is compositional.**  A text is escaped in two pieces by telling the first one how
the second begins; taking the escapes out gives the text back, whatever it was said to come before;
and before a character that was taken into account, no bare number sign of the escaped text is
followed by one that makes it open an interpolation. -/
theorem escape_compositional :
    (∀ (following text : List Char) (c : Char) (rest : List Char),
      escape following (text ++ c :: rest) = escape [c] text ++ escape following (c :: rest)) ∧
    (∀ following text : List Char, unescape (escape following text) = some text) ∧
    (∀ (next : Char) (text before after : List Char),
      IsBareSign (escape [next] text ++ [next]) before after →
        before.length < (escape [next] text).length → opens after = false) := by
  refine ⟨escape_append, unescape_escape, fun next text before after hsign hlength => ?_⟩
  refine not_opens_of_isBareSign (fun ho => ?_) hsign hlength
  rw [contains_interpolationOpeners_singleton next []]
  exact ho

/-- Two number signs before a brace: the second one is escaped, and the first one is bare. -/
theorem escape_compositional_signs :
    escape ['\x7b'] ['#', '#'] = ['#', '\\', '#'] ∧
      IsBareSign (escape ['\x7b'] ['#', '#'] ++ ['\x7b']) [] ['\\', '#', '\x7b'] ∧
      opens ['\\', '#', '\x7b'] = false := by
  have hsign : IsBareSign (escape ['\x7b'] ['#', '#'] ++ ['\x7b']) [] ['\\', '#', '\x7b'] :=
    ⟨rfl, by rw [unescape_nil]; rfl⟩
  exact ⟨rfl, hsign, escape_compositional.2.2 '\x7b' ['#', '#'] [] _ hsign (by decide)⟩

end Literal
end TerseRuby
