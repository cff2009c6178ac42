/-!
# Texts as sequences of code points

A text that comes from outside is a sequence of code points, and a code point need not be a
character.  Some are *surrogates*: halves of a pair, which only together stand for a character that
lies beyond the basic plane.  Nothing keeps a surrogate from standing alone, nor two of them from
standing side by side where the character they stand for is not meant.

* `CodePoint`: characters and surrogates; `CodePoint.value` is the number of a code point.
* `CodePoint.joined`: a text with every pair of surrogates replaced by what the pair stands for.
  Nothing changes where there is no such pair (`CodePoint.isPairless`), and characters that were
  taken apart into pairs (`CodePoint.units`) are put together again.
* `CodedText`: the types whose values are such texts.  In a `String` there are only characters, and
  in a `List CodePoint` there may be anything.

What only stores texts, compares them or passes them on is written for all types of texts.
-/

set_option autoImplicit false

namespace TerseRuby

/-- A code point. -/
inductive CodePoint where
  /-- A character. -/
  | char (c : Char)
  /-- The first half of a pair, given by its place among these. -/
  | high (place : Fin 0x400)
  /-- The second half of a pair, given by its place among these. -/
  | low (place : Fin 0x400)
  deriving DecidableEq, Repr

namespace CodePoint

/-- The number of a code point. -/
def value : CodePoint → Nat
  | .char c => c.toNat
  | .high place => 0xD800 + place
  | .low place => 0xDC00 + place

/-- The code point with a given number. -/
def ofValue (code : Nat) : CodePoint :=
  if 0xD800 ≤ code ∧ code < 0xDC00 then .high (Fin.ofNat 0x400 (code - 0xD800))
  else if 0xDC00 ≤ code ∧ code < 0xE000 then .low (Fin.ofNat 0x400 (code - 0xDC00))
  else .char (Char.ofNat code)

/-- The character, if the code point is one. -/
def char? : CodePoint → Option Char
  | .char c => some c
  | _ => none

/-- The character as it is shown: a surrogate is replaced by a mark. -/
def shown : CodePoint → Char
  | .char c => c
  | _ => '\uFFFD'

/-! ## Pairs of surrogates -/

/-- The character that a pair of surrogates stands for. -/
def pair (high low : Fin 0x400) : Char := Char.ofNat (0x10000 + high * 0x400 + low)

/-- The text in which every pair of surrogates is replaced by the character that it stands for. -/
def joined : List CodePoint → List CodePoint
  | .high m :: .low n :: rest => .char (pair m n) :: joined rest
  | p :: rest => p :: joined rest
  | [] => []

/-- Whether no surrogate that may begin a pair stands before one that may end it. -/
def isPairless : List CodePoint → Bool
  | .high _ :: .low _ :: _ => false
  | _ :: rest => isPairless rest
  | [] => true

theorem joined_of_isPairless {text : List CodePoint} (h : isPairless text = true) :
    joined text = text := by
  fun_induction isPairless text with
  | case1 => cases h
  | case2 p rest hpair ih =>
    rw [joined, ih h]
    exact hpair
  | case3 => rfl

theorem isPairless_char (cs : List Char) : isPairless (cs.map .char) = true := by
  induction cs with
  | nil => rfl
  | cons c cs ih => exact ih

/-! ## Characters taken apart -/

/-- The code point as the basic plane can hold it: beyond it, as a pair of surrogates. -/
def units : CodePoint → List CodePoint
  | .char c =>
    if c.toNat < 0x10000 then [.char c]
    else
      [.high (Fin.ofNat 0x400 ((c.toNat - 0x10000) / 0x400)),
        .low (Fin.ofNat 0x400 ((c.toNat - 0x10000) % 0x400))]
  | p => [p]

theorem units_char {c : Char} (h : c.toNat < 0x10000) : units (.char c) = [.char c] := by
  rw [units, if_pos h]

theorem pair_units {c : Char} (h : ¬c.toNat < 0x10000) :
    pair (Fin.ofNat 0x400 ((c.toNat - 0x10000) / 0x400))
      (Fin.ofNat 0x400 ((c.toNat - 0x10000) % 0x400)) = c := by
  have hvalid : c.toNat < 0xD800 ∨ (0xDFFF < c.toNat ∧ c.toNat < 0x110000) := c.valid
  have hcode : 0x10000 + (c.toNat - 0x10000) / 0x400 % 0x400 * 0x400 +
      (c.toNat - 0x10000) % 0x400 % 0x400 = c.toNat := by omega
  rw [pair, Fin.val_ofNat, Fin.val_ofNat, hcode, Char.ofNat_toNat]

/-- Only a surrogate that may end a pair is taken apart into something that begins with one. -/
theorem eq_low_of_flatMap_units {text more : List CodePoint} {n : Fin 0x400}
    (h : text.flatMap units = .low n :: more) : ∃ rest, text = .low n :: rest := by
  rcases text with _ | ⟨c | m | m, rest⟩
  · cases h
  · rw [List.flatMap_cons, units] at h
    split at h <;> cases h
  · cases h
  · cases h
    exact ⟨rest, rfl⟩

/-- Joining the pairs undoes that characters are taken apart. -/
theorem joined_flatMap_units (text : List CodePoint) :
    joined (text.flatMap units) = joined text := by
  induction text using joined.induct with
  | case1 m n rest ih =>
    rw [joined, ← ih]
    rfl
  | case2 p rest hpair ih =>
    rw [joined.eq_2 p rest hpair, ← ih, List.flatMap_cons]
    rcases p with c | m | n
    · rw [units]
      split
      · rfl
      · rename_i hcode
        rw [List.cons_append, List.cons_append, List.nil_append, joined, pair_units hcode]
    · refine joined.eq_2 _ _ fun m n more hm hmore => ?_
      obtain ⟨others, hrest⟩ := eq_low_of_flatMap_units hmore
      exact hpair m n others hm hrest
    · rfl
  | case3 => rfl

/-! ## Numbers -/

theorem ofValue_value (p : CodePoint) : ofValue p.value = p := by
  rcases p with c | n | n
  · have hvalid : c.toNat < 0xD800 ∨ (0xDFFF < c.toNat ∧ c.toNat < 0x110000) := c.valid
    rw [value, ofValue, if_neg (by omega), if_neg (by omega), Char.ofNat_toNat]
  · rw [value, ofValue, if_pos (by omega), Nat.add_sub_cancel_left, Fin.ofNat_val_eq_self]
  · rw [value, ofValue, if_neg (by omega), if_pos (by omega), Nat.add_sub_cancel_left,
      Fin.ofNat_val_eq_self]

theorem value_injective {p q : CodePoint} (h : p.value = q.value) : p = q := by
  rw [← ofValue_value p, h, ofValue_value]

/-! ## Characters -/

theorem mapM_char? (cs : List Char) : (cs.map CodePoint.char).mapM char? = some cs := by
  induction cs with
  | nil => rfl
  | cons c cs ih => simp [List.mapM_cons, ih, char?]

theorem eq_map_char {text : List CodePoint} {cs : List Char} (h : text.mapM char? = some cs) :
    text = cs.map .char := by
  induction text generalizing cs with
  | nil =>
    cases h
    rfl
  | cons p rest ih =>
    rcases p with c | _ | _
    · rw [List.mapM_cons] at h
      rcases hrest : rest.mapM char? with _ | ds
      · simp [char?, hrest] at h
      · rw [ih hrest]
        simp [char?, hrest] at h
        rw [← h, List.map_cons]
    · cases h
    · cases h

end CodePoint

/-! ## Types of texts -/

/-- A type of texts: each is a sequence of code points, and no two are the same sequence. -/
class CodedText (σ : Type) where
  /-- The code points of a text. -/
  codes : σ → List CodePoint
  /-- The text with the given code points, if there is one. -/
  ofCodes? : List CodePoint → Option σ
  /-- The text with the given characters. -/
  literal : String → σ
  /-- The text as messages show it. -/
  shown : σ → String
  ofCodes?_eq_some_iff {text : List CodePoint} {s : σ} : ofCodes? text = some s ↔ codes s = text
  codes_literal (s : String) : codes (literal s) = s.toList.map .char
  shown_literal (s : String) : shown (literal s) = s

namespace CodedText

/-- Strings are texts without surrogates. -/
instance : CodedText String where
  codes s := s.toList.map .char
  ofCodes? text := (text.mapM CodePoint.char?).map String.ofList
  literal s := s
  shown s := s
  ofCodes?_eq_some_iff := by
    intro text s
    rw [Option.map_eq_some_iff]
    constructor
    · rintro ⟨cs, hcs, rfl⟩
      rw [String.toList_ofList, CodePoint.eq_map_char hcs]
    · rintro rfl
      exact ⟨s.toList, CodePoint.mapM_char? _, String.ofList_toList⟩
  codes_literal _ := rfl
  shown_literal _ := rfl

/-- Lists of code points are texts of any sort. -/
instance : CodedText (List CodePoint) where
  codes text := text
  ofCodes? text := some text
  literal s := s.toList.map .char
  shown text := String.ofList (text.map CodePoint.shown)
  ofCodes?_eq_some_iff := by
    intro text s
    rw [Option.some_inj, eq_comm]
  codes_literal _ := rfl
  shown_literal s := by
    rw [List.map_map]
    exact (congrArg String.ofList (List.map_id s.toList)).trans String.ofList_toList

variable {σ : Type} [CodedText σ]

theorem codes_injective {s t : σ} (h : codes s = codes t) : s = t :=
  Option.some_inj.mp ((ofCodes?_eq_some_iff.mpr h).symm.trans (ofCodes?_eq_some_iff.mpr rfl))

theorem ofCodes?_codes (s : σ) : ofCodes? (codes s) = some s := ofCodes?_eq_some_iff.mpr rfl

theorem literal_injective {s t : String} (h : (literal s : σ) = literal t) : s = t := by
  rw [← shown_literal (σ := σ) s, h, shown_literal]

theorem literal_beq [DecidableEq σ] (s t : String) :
    ((literal s : σ) == literal t) = (s == t) := by
  rw [Bool.eq_iff_iff, beq_iff_eq, beq_iff_eq]
  exact ⟨literal_injective, congrArg literal⟩

/-- Whether a text holds no pair of surrogates. -/
def isPairless (s : σ) : Bool := CodePoint.isPairless (codes s)

@[simp] theorem isPairless_literal (s : String) : isPairless (literal s : σ) = true := by
  rw [isPairless, codes_literal, CodePoint.isPairless_char]

@[simp] theorem isPairless_string (s : String) : isPairless s = true := isPairless_literal s

/-- The numbers of the code points of a text, by which texts are put in order. -/
def values (s : σ) : List Nat := (codes s).map CodePoint.value

theorem values_injective {s t : σ} (h : values s = values t) : s = t :=
  codes_injective (List.map_inj_right (fun _ _ => CodePoint.value_injective) |>.mp h)

end CodedText
end TerseRuby
