import TerseRuby.Json.Token
import TerseRuby.Proofs.Json.Ordered
import TerseRuby.Proofs.Number.Numeral
import Mathlib.Data.List.Forall2

/-!
# Cutting written text into tokens

The first half of reading back what was written: the text of a document is cut into the tokens of
the document, whatever the layout.

* `Json.scanText_encodePoint`: one code point between quotes is read back from its escape, in two
  pieces if it lies beyond the basic plane (`CodePoint.units`).  Once the pairs are joined, that
  makes no difference, so a text is read back if it held no pair of surrogates before.
  `Json.IsPairless` says so of all texts of a document.
* `Json.Lexes text tokens`: the text is cut into these tokens.
* `Json.Cuts part tokens`: a part of a text contributes these tokens, whatever follows, as long as a
  number cannot go on there.  Parts are put together by `cuts_intercalate` and `cuts_enclose`.
* `Json.tokens`: the tokens of a document, and `cuts_write`: its text contributes them, if there are
  no pairs of surrogates.
-/

set_option autoImplicit false

namespace TerseRuby
namespace Json

open CodePoint (units units_char joined_flatMap_units)
open Decimal (Numeral isDigit)
open Decimal.Numeral (Ends)

variable {σ : Type}

/-! ## Texts -/

theorem scanText_short {letter c : Char} (h : shortEscape? letter = some c) (hu : letter ≠ 'u')
    (rest : List Char) :
    scanText ('\\' :: letter :: rest) =
      (scanText rest).map fun text => (.char c :: text.1, text.2) := by
  rw [scanText]
  · rw [h]
    cases scanText rest <;> rfl
  · intro _ _ _ _ _ hletter
    exact absurd hletter hu

theorem scanText_unit {code : Nat} (hcode : code < 0x10000) (rest : List Char) :
    scanText (unitEscape code ++ rest) =
      (scanText rest).map fun text => (.ofValue code :: text.1, text.2) := by
  obtain ⟨a, b, c, d, hdigits⟩ : ∃ a b c d, Hex.lower 4 code = [a, b, c, d] := ⟨_, _, _, _, rfl⟩
  have hvalue : Hex.valueOf? [a, b, c, d] = some code := hdigits ▸ Hex.valueOf?_lower hcode
  rw [unitEscape, hdigits]
  simp only [List.cons_append, List.nil_append, scanText, hvalue, Option.bind_eq_bind,
    Option.bind_some]
  cases scanText rest <;> rfl

theorem scanText_plain {c : Char} (hquote : c ≠ '"') (hbackslash : c ≠ '\\')
    (hcode : 0x20 ≤ c.toNat) (rest : List Char) :
    scanText (c :: rest) = (scanText rest).map fun text => (.char c :: text.1, text.2) := by
  have hplain : (decide (c.toNat < 0x20) || c == '\\') = false := by
    rw [Bool.or_eq_false_iff, decide_eq_false_iff_not]
    exact ⟨by omega, beq_eq_false_iff_ne.mpr hbackslash⟩
  rw [scanText]
  · rw [hplain]
    cases scanText rest <;> rfl
  · exact hquote
  · intro _ _ _ _ _ heq
    exact absurd heq hbackslash
  · intro _ _ heq
    exact absurd heq hbackslash

/-- A code point beyond the basic plane is taken apart into two surrogates. -/
theorem scanText_supplementary {c : Char} (h : ¬c.toNat < 0x10000) (rest : List Char) :
    scanText (unitEscape (0xD800 + (c.toNat - 0x10000) / 0x400) ++
      unitEscape (0xDC00 + (c.toNat - 0x10000) % 0x400) ++ rest) =
      (scanText rest).map fun text => (units (.char c) ++ text.1, text.2) := by
  have hvalid : c.toNat < 0xD800 ∨ (0xDFFF < c.toNat ∧ c.toNat < 0x110000) := c.valid
  have hhigh : CodePoint.ofValue (0xD800 + (c.toNat - 0x10000) / 0x400) =
      .high (Fin.ofNat 0x400 ((c.toNat - 0x10000) / 0x400)) := by
    rw [CodePoint.ofValue, if_pos (by omega), Nat.add_sub_cancel_left]
  have hlow : CodePoint.ofValue (0xDC00 + (c.toNat - 0x10000) % 0x400) =
      .low (Fin.ofNat 0x400 ((c.toNat - 0x10000) % 0x400)) := by
    rw [CodePoint.ofValue, if_neg (by omega), if_pos (by omega), Nat.add_sub_cancel_left]
  rw [List.append_assoc, scanText_unit (by omega), scanText_unit (by omega), hhigh, hlow,
    Option.map_map, units, if_neg h]
  rfl

/-- A character is read back from its escape. -/
theorem scanText_encodeChar (c : Char) (rest : List Char) :
    scanText (encodeChar c ++ rest) =
      (scanText rest).map fun text => (units (.char c) ++ text.1, text.2) := by
  have hc : Char.ofNat c.toNat = c := Char.ofNat_toNat c
  unfold encodeChar
  split
  · exact scanText_short rfl (by decide) rest
  · exact scanText_short rfl (by decide) rest
  · exact scanText_short rfl (by decide) rest
  · exact scanText_short rfl (by decide) rest
  · exact scanText_short rfl (by decide) rest
  · rename_i hquote hbackslash _ _ _
    dsimp only
    split
    · rename_i hcode
      rw [← hc, eq_of_beq hcode]
      exact scanText_short rfl (by decide) rest
    · split
      · rename_i hcode
        rw [← hc, eq_of_beq hcode]
        exact scanText_short rfl (by decide) rest
      · split
        · rename_i hcode
          rw [Bool.and_eq_true, decide_eq_true_eq, decide_eq_true_eq] at hcode
          rw [units_char (by omega)]
          exact scanText_plain hquote hbackslash hcode.1 rest
        · split
          · rename_i hcode
            rw [scanText_unit hcode, units_char hcode]
            exact congrArg (fun p => (scanText rest).map fun text => (p :: text.1, text.2))
              (CodePoint.ofValue_value (.char c))
          · rename_i hcode
            exact scanText_supplementary hcode rest

/-- **A code point is read back from its escape**, in one piece or two. -/
theorem scanText_encodePoint (p : CodePoint) (rest : List Char) :
    scanText (encodePoint p ++ rest) =
      (scanText rest).map fun text => (units p ++ text.1, text.2) := by
  have hunit (h : p.value < 0x10000) := scanText_unit h rest
  rw [CodePoint.ofValue_value] at hunit
  rcases p with c | n | n
  · exact scanText_encodeChar c rest
  · exact hunit (by rw [CodePoint.value]; omega)
  · exact hunit (by rw [CodePoint.value]; omega)

theorem scanText_encode (text : List CodePoint) (rest : List Char) :
    scanText (text.flatMap encodePoint ++ '"' :: rest) = some (text.flatMap units, rest) := by
  induction text with
  | nil => rw [List.flatMap_nil, List.nil_append, scanText, List.flatMap_nil]
  | cons p text ih =>
    rw [List.flatMap_cons, List.append_assoc, scanText_encodePoint, ih, List.flatMap_cons]
    rfl

/-! ## Numerals -/

/-- No word begins with a digit, and none has a digit after a minus sign. -/
theorem isDigit_ne_letters {c : Char} (h : isDigit c = true) :
    ∀ d ∈ ['n', 't', 'f', 'N', 'I', '-'], d ≠ c := by
  refine @Decimal.forall_isDigit (fun c => ∀ d ∈ _, d ≠ c) ?_ c h
  decide

theorem isBlank_of_isDigit {c : Char} (h : isDigit c = true) : isBlank c = false := by
  refine @Decimal.forall_isDigit (fun c => isBlank c = false) ?_ c h
  decide

/-- The text begins as a numeral does: with a digit, or with a minus sign and a digit. -/
inductive BeginsNumeral : List Char → Prop where
  | digit {d : Char} (h : isDigit d = true) (rest : List Char) : BeginsNumeral (d :: rest)
  | minus {d : Char} (h : isDigit d = true) (rest : List Char) : BeginsNumeral ('-' :: d :: rest)

theorem scanWord_of_beginsNumeral {text : List Char} (h : BeginsNumeral text) :
    (scanWord text : Option (Scalar σ × List Char)) = none := by
  rcases h with ⟨h, rest⟩ | ⟨h, rest⟩ <;>
    have hne := isDigit_ne_letters h <;>
    simp only [List.forall_mem_cons] at hne <;>
    simp [scanWord, words, hne]

/-! ## The tokens of a document -/

mutual

/-- The tokens of a document. -/
def tokens : Json σ → List (Token σ)
  | .scalar s => [.atom s]
  | .array items => .openArray :: List.intercalate [.comma] (itemTokens items) ++ [.closeArray]
  | .object entries =>
    .openObject :: List.intercalate [.comma] (entryTokens entries) ++ [.closeObject]

/-- The tokens of each item of a list. -/
def itemTokens : List (Json σ) → List (List (Token σ))
  | [] => []
  | d :: rest => tokens d :: itemTokens rest

/-- The tokens of each entry of an object. -/
def entryTokens : List (σ × Json σ) → List (List (Token σ))
  | [] => []
  | (key, d) :: rest => (.atom (.str key) :: .colon :: tokens d) :: entryTokens rest

end

theorem itemTokens_eq_map (items : List (Json σ)) : itemTokens items = items.map tokens := by
  induction items with
  | nil => rfl
  | cons d rest ih => rw [itemTokens, ih, List.map_cons]

/-- The tokens of an entry. -/
def tokensOfEntry (entry : σ × Json σ) : List (Token σ) :=
  .atom (.str entry.1) :: .colon :: tokens entry.2

theorem entryTokens_eq_map (entries : List (σ × Json σ)) :
    entryTokens entries = entries.map tokensOfEntry := by
  induction entries with
  | nil => rfl
  | cons entry rest ih => rw [entryTokens, ih, List.map_cons, tokensOfEntry]

variable [CodedText σ]

/-- No text of the document, keys included, holds a pair of surrogates.  A pair is written like the
character that it stands for, so a text with one is not read back. -/
inductive IsPairless : Json σ → Prop where
  | scalar (s : Scalar σ) (text : ∀ t, s = .str t → CodedText.isPairless t = true) :
      IsPairless (.scalar s)
  | array (items : List (Json σ)) (inside : ∀ d ∈ items, IsPairless d) :
      IsPairless (.array items)
  | object (entries : List (σ × Json σ))
      (keys : ∀ entry ∈ entries, CodedText.isPairless entry.1 = true)
      (inside : ∀ entry ∈ entries, IsPairless entry.2) : IsPairless (.object entries)

/-- Where texts are strings there are no surrogates at all. -/
theorem isPairless_string (d : Json) : d.IsPairless := by
  induction d using Json.induction with
  | scalar s => exact .scalar s fun t _ => CodedText.isPairless_string t
  | array items ih => exact .array items ih
  | object entries ih => exact .object entries (fun _ _ => CodedText.isPairless_string _) ih

/-! ## Cutting -/

/-- The text is cut into these tokens. -/
def Lexes (text : List Char) (tokens : List (Token σ)) : Prop :=
  ∀ fuel, text.length ≤ fuel → tokensWithin fuel text = some tokens

theorem lexes_nil : Lexes [] ([] : List (Token σ)) := by
  intro fuel _
  rw [tokensWithin]

theorem Lexes.blank {c : Char} {rest : List Char} {tokens : List (Token σ)} (hc : isBlank c = true)
    (h : Lexes rest tokens) : Lexes (c :: rest) tokens := by
  intro fuel hfuel
  obtain ⟨fuel, rfl⟩ := Nat.exists_eq_add_of_le' (Nat.le_trans (Nat.succ_pos _) hfuel)
  rw [tokensWithin, if_pos hc]
  exact h fuel (Nat.le_of_succ_le_succ hfuel)

/-- A token that is found at the front, and the tokens of what follows. -/
theorem Lexes.token {c : Char} {text rest : List Char} {token : Token σ} {tokens : List (Token σ)}
    (hc : isBlank c = false) (htoken : nextToken? (c :: (text ++ rest)) = some (token, rest))
    (h : Lexes rest tokens) : Lexes (c :: (text ++ rest)) (token :: tokens) := by
  intro fuel hfuel
  obtain ⟨fuel, rfl⟩ := Nat.exists_eq_add_of_le' (Nat.le_trans (Nat.succ_pos _) hfuel)
  have hrest : rest.length ≤ fuel := by
    rw [List.length_cons, List.length_append] at hfuel
    omega
  rw [tokensWithin, if_neg (by rw [hc]; exact Bool.false_ne_true), htoken]
  simp only [Option.bind_eq_bind, Option.bind_some, h fuel hrest]
  rfl

/-- A part of a text contributes these tokens, whatever follows that no number goes on with. -/
def Cuts (part : List Char) (tokens : List (Token σ)) : Prop :=
  ∀ ⦃rest more⦄, Ends rest → Lexes rest more → Lexes (part ++ rest) (tokens ++ more)

theorem Cuts.lexes {text : List Char} {tokens : List (Token σ)} (h : Cuts text tokens) :
    Lexes text tokens := by
  have hend : Ends [] := by
    intro c hc
    cases hc
  have hall := h hend lexes_nil
  rwa [List.append_nil, List.append_nil] at hall

theorem ends_cons {c : Char} (h : isDigit c = false ∧ c ≠ '.' ∧ c ≠ 'e' ∧ c ≠ 'E')
    (rest : List Char) : Ends (c :: rest) := by
  rintro _ ⟨rfl⟩
  exact h

/-- A part that is found as one token, wherever it stands. -/
theorem cuts_token {part : List Char} {token : Token σ} {c : Char} (hhead : part.head? = some c)
    (hc : isBlank c = false)
    (h : ∀ ⦃rest⦄, Ends rest → nextToken? (part ++ rest) = some (token, rest)) :
    Cuts part [token] := by
  intro rest more hrest hmore
  obtain ⟨cs, rfl⟩ := List.head?_eq_some_iff.mp hhead
  exact Lexes.token hc (h hrest) hmore

/-! ### Scalars -/

theorem cuts_text {s : σ} (h : CodedText.isPairless s = true) :
    Cuts (encodeText s) [.atom (.str s)] := by
  refine cuts_token (c := '"') rfl (by decide) fun rest _ => ?_
  have htext : encodeText s ++ rest =
      '"' :: ((CodedText.codes s).flatMap encodePoint ++ '"' :: rest) := by
    simp [encodeText]
  have hjoined : CodePoint.joined ((CodedText.codes s).flatMap units) = CodedText.codes s := by
    rw [joined_flatMap_units, CodePoint.joined_of_isPairless h]
  rw [htext, nextToken?, scanText_encode]
  simp only [Option.bind_eq_bind, Option.bind_some, hjoined, CodedText.ofCodes?_codes]
  rfl

theorem nextToken?_of_beginsNumeral {text rest : List Char} {n : Numeral} (h : BeginsNumeral text)
    (hscan : Decimal.scanNumeral text = some (n, rest)) :
    nextToken? text =
      some ((.atom (if n.isWhole then .int n.toInt else .float (Double.ofNumeral n)) : Token σ),
        rest) := by
  have hword : (scanWord text : Option (Scalar σ × List Char)) = none :=
    scanWord_of_beginsNumeral h
  rw [nextToken?]
  · simp [hword, scanNumber, hscan]
  all_goals
    rintro tail rfl
    rcases h with ⟨h, _⟩
    exact absurd h (by decide)

theorem beginsNumeral_chars {n : Numeral} (hn : n.IsProper) (plusSign : Bool)
    (rest : List Char) : BeginsNumeral (n.chars plusSign ++ rest) := by
  obtain ⟨d, ds, hwhole⟩ := List.exists_cons_of_ne_nil hn.whole.1
  have hd : isDigit d = true := hn.whole.2 d (hwhole ▸ List.mem_cons_self)
  rw [Numeral.chars, Numeral.unsignedChars, hwhole]
  rcases n.negative with _ | _
  · exact .digit hd _
  · exact .minus hd _

theorem BeginsNumeral.head {text : List Char} (h : BeginsNumeral text) :
    ∃ c, text.head? = some c ∧ isBlank c = false := by
  rcases h with ⟨h, rest⟩ | ⟨h, rest⟩
  · exact ⟨_, rfl, isBlank_of_isDigit h⟩
  · exact ⟨_, rfl, by decide⟩

theorem cuts_numeral {n : Numeral} (hn : n.IsProper) (plusSign : Bool) :
    Cuts (n.chars plusSign)
      [(.atom (if n.isWhole then .int n.toInt else .float (Double.ofNumeral n)) : Token σ)] := by
  obtain ⟨c, hhead, hc⟩ := (List.append_nil (n.chars plusSign) ▸
    beginsNumeral_chars hn plusSign []).head
  refine cuts_token hhead hc fun rest hrest => ?_
  exact nextToken?_of_beginsNumeral (beginsNumeral_chars hn plusSign rest)
    (Numeral.scanNumeral_chars plusSign hn hrest)

theorem cuts_int (n : Int) : Cuts (Decimal.intText n) [(.atom (.int n) : Token σ)] := by
  have hwhole : (Numeral.ofInt n).isWhole = true := rfl
  have h : Cuts _ [(.atom _ : Token σ)] := cuts_numeral (Numeral.isProper_ofInt n) true
  rwa [Numeral.chars_ofInt, if_pos hwhole, Numeral.toInt_ofInt] at h

theorem cuts_float (x : Double) :
    Cuts (NumberFormat.json.text x) [(.atom (.float x) : Token σ)] := by
  rcases x with _ | negative | ⟨negative, exponent, fraction⟩
  · exact cuts_token (c := 'N') rfl (by decide) fun rest _ => rfl
  · rcases negative with _ | _
    · exact cuts_token (c := 'I') rfl (by decide) fun rest _ => rfl
    · exact cuts_token (c := '-') rfl (by decide) fun rest _ => rfl
  · have hproper := NumberFormat.json.isProper_numeral_shortest negative exponent fraction
    have h : Cuts _ [(.atom _ : Token σ)] := cuts_numeral hproper NumberFormat.json.plusSign
    rwa [NumberFormat.chars_numeral, NumberFormat.isWhole_numeral, if_neg Bool.false_ne_true,
      NumberFormat.ofNumeral_numeral_shortest] at h

theorem cuts_scalar {s : Scalar σ} (h : ∀ t, s = .str t → CodedText.isPairless t = true) :
    Cuts (encodeScalar s) [.atom s] := by
  rcases s with _ | b | n | x | s
  · exact cuts_token (c := 'n') rfl (by decide) fun rest _ => rfl
  · rcases b with _ | _
    · exact cuts_token (c := 'f') rfl (by decide) fun rest _ => rfl
    · exact cuts_token (c := 't') rfl (by decide) fun rest _ => rfl
  · exact cuts_int n
  · exact cuts_float x
  · exact cuts_text (h s rfl)

/-! ### Containers -/

/-- One mark of punctuation. -/
theorem Lexes.mark {c : Char} {rest : List Char} {token : Token σ} {tokens : List (Token σ)}
    (hc : isBlank c = false) (htoken : nextToken? (c :: rest) = some (token, rest))
    (h : Lexes rest tokens) : Lexes (c :: rest) (token :: tokens) :=
  @Lexes.token _ _ c [] rest token tokens hc htoken h

theorem Lexes.lineBreak {rest : List Char} {tokens : List (Token σ)} (layout : Layout) (depth : Nat)
    (h : Lexes rest tokens) : Lexes (layout.lineBreak depth ++ rest) tokens := by
  have hblanks (k : Nat) : Lexes (List.replicate k ' ' ++ rest) tokens := by
    induction k with
    | zero => exact h
    | succ k ih => exact Lexes.blank (by decide) ih
  rcases layout with _ | blanks
  · exact h
  · exact Lexes.blank (by decide) (hblanks _)

theorem Lexes.separator {rest : List Char} {tokens : List (Token σ)} (layout : Layout) (depth : Nat)
    (h : Lexes rest tokens) : Lexes (layout.separator depth ++ rest) (.comma :: tokens) := by
  rcases layout with _ | blanks
  · exact Lexes.mark (by decide) rfl (Lexes.blank (by decide) h)
  · exact Lexes.mark (by decide) rfl (h.lineBreak (.indented blanks) depth)

theorem ends_separator (layout : Layout) (depth : Nat) (rest : List Char) :
    Ends (layout.separator depth ++ rest) := by
  rcases layout with _ | blanks <;> exact ends_cons (by decide) _

theorem ends_lineBreak (layout : Layout) (depth : Nat) {c : Char}
    (h : isDigit c = false ∧ c ≠ '.' ∧ c ≠ 'e' ∧ c ≠ 'E') (rest : List Char) :
    Ends (layout.lineBreak depth ++ c :: rest) := by
  rcases layout with _ | blanks
  · exact ends_cons h _
  · exact ends_cons (by decide) _

/-- Parts with separators between them contribute their tokens with commas between them. -/
theorem cuts_intercalate (layout : Layout) (depth : Nat) {parts : List (List Char)}
    {tokens : List (List (Token σ))} (h : List.Forall₂ Cuts parts tokens) :
    Cuts (List.intercalate (layout.separator depth) parts) (List.intercalate [.comma] tokens) := by
  induction h with
  | nil =>
    intro rest more _ hmore
    exact hmore
  | @cons part ts parts tokens hpart hparts ih =>
    rcases hparts with _ | ⟨hnext, hparts⟩
    · simpa [List.intercalate] using hpart
    · intro rest more hrest hmore
      rw [List.intercalate_cons_cons, List.intercalate_cons_cons]
      simp only [List.append_assoc]
      exact hpart (ends_separator layout depth _) ((ih hrest hmore).separator layout depth)

/-- A container contributes its brackets around what its parts contribute. -/
theorem cuts_enclose (layout : Layout) (depth : Nat) {opening closing : Char}
    {before after : Token σ} {parts : List (List Char)} {tokens : List (List (Token σ))}
    (hopening : ∀ rest, nextToken? (opening :: rest) = some (before, rest))
    (hclosing : ∀ rest, nextToken? (closing :: rest) = some (after, rest))
    (hblank : isBlank opening = false ∧ isBlank closing = false)
    (hends : isDigit closing = false ∧ closing ≠ '.' ∧ closing ≠ 'e' ∧ closing ≠ 'E')
    (h : List.Forall₂ Cuts parts tokens) :
    Cuts (layout.enclose depth opening closing parts)
      (before :: List.intercalate [.comma] tokens ++ [after]) := by
  intro rest more hrest hmore
  have hlast := Lexes.mark hblank.2 (hclosing rest) hmore
  rcases h with _ | ⟨hpart, hparts⟩
  · exact Lexes.mark hblank.1 (hopening _) hlast
  · have hinside := cuts_intercalate layout (depth + 1) (.cons hpart hparts)
      (ends_lineBreak layout depth hends rest) (hlast.lineBreak layout depth)
    have hall := Lexes.mark hblank.1 (hopening _) (hinside.lineBreak layout (depth + 1))
    simpa [Layout.enclose] using hall

/-! ## Documents -/

theorem cuts_encodeEntry {key : σ} (hkey : CodedText.isPairless key = true) {text : List Char}
    {ts : List (Token σ)} (h : Cuts text ts) :
    Cuts (encodeEntry (key, text)) (.atom (.str key) :: .colon :: ts) := by
  intro rest more hrest hmore
  have hvalue := Lexes.blank (c := ' ') (by decide) (h hrest hmore)
  have hcolon := Lexes.mark (c := ':') (by decide) rfl hvalue
  have hentry := cuts_text hkey (ends_cons (by decide) _) hcolon
  simpa [encodeEntry] using hentry

/-- **The text of a document is cut into the tokens of the document in order.** -/
theorem cuts_write (layout : Layout) (depth : Nat) {d : Json σ} (h : d.IsPairless) :
    Cuts (write layout depth d) (tokens d.sorted) := by
  induction h generalizing depth with
  | scalar s text =>
    rw [write, sorted, tokens]
    exact cuts_scalar text
  | array items _ ih =>
    rw [write_array, sorted_array, tokens, itemTokens_eq_map, List.map_map]
    refine cuts_enclose layout depth (fun _ => rfl) (fun _ => rfl) (by decide) (by decide) ?_
    rw [List.forall₂_map_left_iff, List.forall₂_map_right_iff, List.forall₂_same]
    intro d hd
    exact ih d hd (depth + 1)
  | object entries keys _ ih =>
    rw [write_object, sorted_object, tokens, entryTokens_eq_map, List.map_map]
    refine cuts_enclose layout depth (fun _ => rfl) (fun _ => rfl) (by decide) (by decide) ?_
    rw [List.forall₂_map_left_iff, List.forall₂_map_right_iff, List.forall₂_same]
    intro entry hentry
    have hmem : entry ∈ entries := (List.mergeSort_perm entries keyLe).mem_iff.mp hentry
    exact cuts_encodeEntry (keys entry hmem) (ih entry hmem (depth + 1))

theorem tokens?_write (layout : Layout) {d : Json σ} (h : d.IsPairless) :
    tokens? (write layout 0 d) = some (tokens d.sorted) :=
  (cuts_write layout 0 h).lexes _ (Nat.le_refl _)

end Json
end TerseRuby
