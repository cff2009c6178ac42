import TerseRuby.Proofs.Literal.Scanner
import TerseRuby.Literal.Symbol
import Mathlib.Computability.Language
import Mathlib.Data.List.Infix

/-!
# Reading symbols back

`Literal.symbol` spells a symbol bare where it can, and quoted where it cannot.  Which spellings
are bare is a grammar, and this file states it as one, with the operations on languages: a method
name is an identifier and at most one suffix, a variable name is one or two at signs or a dollar
sign and an identifier, and the operators are listed with their optional parts.

* `Spelling.bareSymbol` is the grammar, and `Spelling.mem_bareSymbol` says that
  `Literal.isBareSymbol` decides it.
* `Scanner.longest?` takes the longest bare symbol that a text begins with.
* `Scanner.symbol?` reads a symbol: a quoted one with the scanner of double-quoted literals, any
  other one as the longest bare symbol.

The longest bare symbol is the one that was written as soon as what comes after it cannot be a
part of it.  For that only the characters of a bare symbol other than its first one matter, which
`exists_cons_of_mem_bareSymbol` bounds: a dollar sign, a colon or a quote may come right after a
symbol.  A quoted symbol needs nothing of what comes after it.  `Literal.symbol_reads_back` puts
the two together.
-/

set_option autoImplicit false

open scoped Computability

namespace TerseRuby

/-! ## The grammar of bare symbols -/

namespace Spelling

/-- One character of a class. -/
def oneOf (p : Char → Bool) : Language Char := {text | ∃ c, p c = true ∧ text = [c]}

/-- One of the characters of a string. -/
def anyOf (s : String) : Language Char := oneOf s.toList.contains

/-- A fixed word. -/
def word (s : String) : Language Char := {text | text = s.toList}

/-- What may be left out. -/
def optional (l : Language Char) : Language Char := 1 + l

/-- Word characters, the first of which is no decimal digit. -/
def identifier : Language Char :=
  oneOf (fun c => CharClass.isWord c && !CharClass.isDecimalDigit c) * (oneOf CharClass.isWord)∗

/-- An identifier with at most one of the suffixes of a method name. -/
def methodName : Language Char := identifier * optional (anyOf "?!=")

/-- An instance, class or global variable. -/
def variableName : Language Char :=
  word "@" * optional (word "@") * identifier + word "$" * identifier

/-- The operators that name methods. -/
def operatorName : Language Char :=
  word "[]" * optional (word "=") + word "**" + anyOf "-+" * optional (word "@")
    + anyOf "*/%~!^&|" + word "<=>" + word "==" * optional (word "=") + word "=~" + word "!="
    + word "!~" + word "<<" + word ">>" + word "<" * optional (word "=")
    + word ">" * optional (word "=")

/-- The symbols that are written without quotes. -/
def bareSymbol : Language Char := methodName + variableName + operatorName

/-! ## What its parts consist of -/

theorem mem_oneOf {p : Char → Bool} {text : List Char} :
    text ∈ oneOf p ↔ ∃ c, p c = true ∧ text = [c] := Iff.rfl

theorem mem_anyOf {s : String} {text : List Char} :
    text ∈ anyOf s ↔ ∃ c ∈ s.toList, text = [c] := by
  simp [anyOf, mem_oneOf]

theorem mem_word {s : String} {text : List Char} : text ∈ word s ↔ text = s.toList := Iff.rfl

theorem mem_optional {l : Language Char} {text : List Char} :
    text ∈ optional l ↔ text = [] ∨ text ∈ l := by
  rw [optional, Language.mem_add, Language.mem_one]

theorem mem_mul_optional {l m : Language Char} {text : List Char} :
    text ∈ l * optional m ↔ text ∈ l ∨ text ∈ l * m := by
  rw [optional, mul_add, mul_one, Language.mem_add]

theorem mem_word_mul {s : String} {l : Language Char} {text : List Char} :
    text ∈ word s * l ↔ ∃ rest ∈ l, text = s.toList ++ rest := by
  rw [Language.mem_mul]
  constructor
  · rintro ⟨_, rfl, rest, hrest, rfl⟩
    exact ⟨rest, hrest, rfl⟩
  · rintro ⟨rest, hrest, rfl⟩
    exact ⟨s.toList, rfl, rest, hrest, rfl⟩

theorem mem_kstar_oneOf {p : Char → Bool} {text : List Char} :
    text ∈ (oneOf p)∗ ↔ text.all p = true := by
  rw [Language.mem_kstar, List.all_eq_true]
  constructor
  · rintro ⟨parts, rfl, hparts⟩ c hc
    obtain ⟨part, hpart, hc⟩ := List.mem_flatten.mp hc
    obtain ⟨d, hd, rfl⟩ := hparts part hpart
    rwa [List.mem_singleton.mp hc]
  · intro h
    have hflat : (text.map fun c => [c]).flatten = text :=
      List.flatMap_def.symm.trans (List.flatMap_singleton' text)
    refine ⟨text.map fun c => [c], hflat.symm, fun part hpart => ?_⟩
    obtain ⟨c, hc, rfl⟩ := List.mem_map.mp hpart
    exact ⟨c, h c hc, rfl⟩

theorem mem_identifier {text : List Char} :
    text ∈ identifier ↔ Literal.isIdentifier text = true := by
  rw [identifier, Language.mem_mul]
  constructor
  · rintro ⟨_, ⟨c, hc, rfl⟩, rest, hrest, rfl⟩
    exact Bool.and_eq_true_iff.mpr ⟨hc, mem_kstar_oneOf.mp hrest⟩
  · intro h
    cases text with
    | nil => cases h
    | cons c rest =>
      obtain ⟨hc, hrest⟩ := Bool.and_eq_true_iff.mp h
      exact ⟨[c], ⟨c, hc, rfl⟩, rest, mem_kstar_oneOf.mpr hrest, rfl⟩

theorem mem_methodName {text : List Char} :
    text ∈ methodName ↔ Literal.isMethodName text = true := by
  rw [methodName, mem_mul_optional, mem_identifier, Literal.isMethodName, Bool.or_eq_true,
    Bool.and_eq_true, Language.mem_mul]
  refine or_congr_right ⟨?_, ?_⟩
  · rintro ⟨front, hfront, _, hlast, rfl⟩
    obtain ⟨c, hc, rfl⟩ := mem_anyOf.mp hlast
    have hsuffix : ∀ c ∈ "?!=".toList, Literal.isMethodSuffix c = true := by decide
    simpa [hsuffix c hc] using mem_identifier.mp hfront
  · rintro ⟨hlast, hfront⟩
    obtain ⟨c, hc, hsuffix⟩ := (Option.any_eq_true _ _).mp hlast
    refine ⟨text.dropLast, mem_identifier.mpr hfront, [c], mem_anyOf.mpr ⟨c, ?_, rfl⟩,
      List.dropLast_append_getLast? c hc⟩
    simpa [Literal.isMethodSuffix, or_assoc] using hsuffix

/-- A variable name by its sigil. -/
theorem mem_variableName_iff {text : List Char} :
    text ∈ variableName ↔
      (∃ rest, Literal.isIdentifier rest = true ∧ text = '@' :: rest) ∨
        (∃ rest, Literal.isIdentifier rest = true ∧ text = '@' :: '@' :: rest) ∨
          ∃ rest, Literal.isIdentifier rest = true ∧ text = '$' :: rest := by
  rw [variableName, Language.mem_add, optional, mul_add, mul_one, add_mul, Language.mem_add,
    mul_assoc, mem_word_mul, mem_word_mul, mem_word_mul, or_assoc]
  simp [mem_word_mul, mem_identifier]

theorem mem_variableName {text : List Char} :
    text ∈ variableName ↔ Literal.isVariableName text = true := by
  rw [mem_variableName_iff]
  constructor
  · rintro (⟨rest, h, rfl⟩ | ⟨rest, h, rfl⟩ | ⟨rest, h, rfl⟩)
    · rw [Literal.isVariableName]
      · exact h
      · -- The name after one at sign does not begin with another one.
        rintro more rfl
        rw [Literal.isIdentifier, Bool.and_eq_true] at h
        exact absurd h.1 (by decide)
    · exact h
    · exact h
  · intro h
    unfold Literal.isVariableName at h
    split at h
    · exact .inr (.inl ⟨_, h, rfl⟩)
    · exact .inl ⟨_, h, rfl⟩
    · exact .inr (.inr ⟨_, h, rfl⟩)
    · cases h

theorem mem_operatorName {text : List Char} :
    text ∈ operatorName ↔ text ∈ Literal.operatorNames := by
  simp only [operatorName, Language.mem_add, Language.mem_mul, mem_optional, mem_word, mem_anyOf]
  simp [Literal.operatorNames]
  grind

/-- **The spellings that need no quotes are the words of the grammar.** -/
theorem mem_bareSymbol {text : List Char} :
    text ∈ bareSymbol ↔ Literal.isBareSymbol text = true := by
  simp only [bareSymbol, Language.mem_add, mem_methodName, mem_variableName, mem_operatorName,
    Literal.isBareSymbol, Bool.or_eq_true, List.contains_iff_mem]

instance : DecidablePred (· ∈ identifier) := fun _ => decidable_of_iff _ mem_identifier.symm

instance : DecidablePred (· ∈ bareSymbol) := fun _ => decidable_of_iff _ mem_bareSymbol.symm

/-! ## Where a bare symbol ends -/

/-- A character that a bare symbol may have after its first one. -/
def isContinuation (c : Char) : Bool :=
  CharClass.isWord c || "?!=@[]*+-/%~^&|<>".toList.contains c

theorem isContinuation_of_isIdentifier {text : List Char}
    (h : Literal.isIdentifier text = true) : ∀ c ∈ text, isContinuation c = true :=
  fun c hc => Bool.or_eq_true_iff.mpr (.inl (Literal.isWord_of_isIdentifier h c hc))

theorem isContinuation_of_mem_methodName {text : List Char} (h : text ∈ methodName) :
    ∀ c ∈ text, isContinuation c = true := by
  rw [methodName, mem_mul_optional, Language.mem_mul] at h
  obtain h | ⟨front, hfront, _, hlast, rfl⟩ := h
  · exact isContinuation_of_isIdentifier (mem_identifier.mp h)
  · obtain ⟨d, hd, rfl⟩ := mem_anyOf.mp hlast
    have hsuffix : ∀ c ∈ "?!=".toList, isContinuation c = true := by decide
    intro c hc
    obtain hc | hc := List.mem_append.mp hc
    · exact isContinuation_of_isIdentifier (mem_identifier.mp hfront) c hc
    · exact List.mem_singleton.mp hc ▸ hsuffix d hd

/-- **A bare symbol is not empty, and a dollar sign at its front is its only character that may
not continue one.** -/
theorem exists_cons_of_mem_bareSymbol {text : List Char} (h : text ∈ bareSymbol) :
    ∃ c rest, text = c :: rest ∧ (isContinuation c = true ∨ c = '$') ∧
      ∀ d ∈ rest, isContinuation d = true := by
  obtain (h | h) | h := h
  · cases text with
    | nil => exact absurd (mem_methodName.mp h) (by decide)
    | cons c rest =>
      obtain ⟨hc, hrest⟩ := List.forall_mem_cons.mp (isContinuation_of_mem_methodName h)
      exact ⟨c, rest, rfl, .inl hc, hrest⟩
  · have hat : isContinuation '@' = true := by decide
    obtain ⟨rest, hrest, rfl⟩ | ⟨rest, hrest, rfl⟩ | ⟨rest, hrest, rfl⟩ :=
      mem_variableName_iff.mp h
    · exact ⟨'@', rest, rfl, .inl hat, isContinuation_of_isIdentifier hrest⟩
    · exact ⟨'@', '@' :: rest, rfl, .inl hat,
        List.forall_mem_cons.mpr ⟨hat, isContinuation_of_isIdentifier hrest⟩⟩
    · exact ⟨'$', rest, rfl, .inr rfl, isContinuation_of_isIdentifier hrest⟩
  · have hnames : ∀ name ∈ Literal.operatorNames,
        name ≠ [] ∧ ∀ d ∈ name, isContinuation d = true := by decide
    obtain ⟨hne, hall⟩ := hnames text (mem_operatorName.mp h)
    obtain ⟨c, rest, rfl⟩ := List.exists_cons_of_ne_nil hne
    obtain ⟨hc, hrest⟩ := List.forall_mem_cons.mp hall
    exact ⟨c, rest, rfl, .inl hc, hrest⟩

/-- Nothing may come between a bare symbol and what cannot continue one. -/
theorem not_mem_bareSymbol_append {text front rest : List Char} (htext : text ∈ bareSymbol)
    (hrest : ∀ c ∈ rest.head?, isContinuation c = false) (hfront : front <+: rest)
    (hne : front ≠ []) : text ++ front ∉ bareSymbol := by
  intro h
  obtain ⟨c, more, rfl, -, -⟩ := exists_cons_of_mem_bareSymbol htext
  obtain ⟨d, front, rfl⟩ := List.exists_cons_of_ne_nil hne
  obtain ⟨rest, rfl⟩ := hfront
  obtain ⟨_, _, heq, -, hcontinue⟩ := exists_cons_of_mem_bareSymbol h
  obtain ⟨-, rfl⟩ := List.cons.inj heq
  have hd := hcontinue d (by simp)
  rw [hrest d rfl] at hd
  cases hd

end Spelling

/-! ## The reader -/

namespace Scanner

open Spelling

/-- The longest bare symbol that a text begins with, and what comes after it. -/
def longest? (text : List Char) : Option (List Char × List Char) :=
  (text.inits.reverse.find? (· ∈ bareSymbol)).map fun front => (front, text.drop front.length)

/-- A symbol, and what comes after it. -/
def symbol? : List Char → Option (List Char × List Char)
  | ':' :: '"' :: rest =>
    match double rest with
    | some ⟨content, .quote, rest⟩ => some (content, rest)
    | _ => none
  | ':' :: rest => longest? rest
  | _ => none

/-- A text is the last of the texts that it begins with. -/
theorem exists_inits_eq (text : List Char) : ∃ fronts, text.inits = fronts ++ [text] := by
  induction text with
  | nil => exact ⟨[], rfl⟩
  | cons c rest ih =>
    obtain ⟨fronts, hfronts⟩ := ih
    exact ⟨[] :: fronts.map (c :: ·), by rw [List.inits_cons, hfronts]; simp⟩

theorem isPrefix_of_mem_tail_inits {front text : List Char} (h : front ∈ text.inits.tail) :
    front <+: text ∧ front ≠ [] := by
  refine ⟨(List.mem_inits front text).mp (List.mem_of_mem_tail h), ?_⟩
  cases text with
  | nil => cases h
  | cons c rest =>
    rw [List.inits_cons, List.tail_cons] at h
    obtain ⟨more, -, rfl⟩ := List.mem_map.mp h
    exact List.cons_ne_nil c more

/-- **The longest bare symbol is the one in front of what cannot continue it.** -/
theorem longest?_append {text rest : List Char} (htext : text ∈ bareSymbol)
    (hrest : ∀ c ∈ rest.head?, isContinuation c = false) :
    longest? (text ++ rest) = some (text, rest) := by
  obtain ⟨fronts, hfronts⟩ := exists_inits_eq text
  have hfind : (text ++ rest).inits.reverse.find? (· ∈ bareSymbol) = some text := by
    rw [List.find?_eq_some_iff_append, List.inits_append, hfronts]
    refine ⟨decide_eq_true htext, (rest.inits.tail.map (text ++ ·)).reverse, fronts.reverse,
      by simp, fun longer hlonger => ?_⟩
    obtain ⟨front, hfront, rfl⟩ := List.mem_map.mp (List.mem_reverse.mp hlonger)
    obtain ⟨hfront, hne⟩ := isPrefix_of_mem_tail_inits hfront
    simpa using not_mem_bareSymbol_append htext hrest hfront hne
  rw [longest?, hfind, Option.map_some, List.drop_left]

/-- A bare symbol after its colon is read as the longest one. -/
theorem symbol?_of_mem_bareSymbol {text : List Char} (h : text ∈ bareSymbol) (rest : List Char) :
    symbol? (':' :: (text ++ rest)) = longest? (text ++ rest) := by
  obtain ⟨c, more, rfl, hc, -⟩ := exists_cons_of_mem_bareSymbol h
  have hne : c ≠ '"' := by
    rintro rfl
    exact absurd hc (by decide)
  rw [List.cons_append, symbol?]
  rintro _ heq
  exact hne (List.cons.inj heq).1

/-- A quoted symbol after its colon is read by the scanner of double-quoted literals. -/
theorem symbol?_doubleQuoted (text rest : List Char) :
    symbol? (':' :: (Literal.doubleQuoted text ++ rest)) = some (text, rest) := by
  rw [Literal.doubleQuoted, List.append_assoc, List.cons_append, List.singleton_append, symbol?,
    double_doubleQuoted]

end Scanner

/-! ## Symbols read back -/

namespace Literal

open Spelling

/-- Escaping never makes a text shorter. -/
theorem length_le_length_escape (following text : List Char) :
    text.length ≤ (escape following text).length := by
  induction text with
  | nil => exact Nat.le_refl 0
  | cons c rest ih =>
    have hhead := Scanner.head?_escapeChar c (nextText rest following)
    have hpos : 0 < (escapeChar c (nextText rest following)).length := by
      rw [List.length_pos_iff]
      intro hnil
      simp [hnil] at hhead
    rw [escape, List.length_append, List.length_cons]
    omega

theorem doubleQuoted_ne_self (text : List Char) : doubleQuoted text ≠ text := by
  intro heq
  have hlength := congrArg List.length heq
  have hle := length_le_length_escape ['"'] text
  simp only [doubleQuoted, List.length_append, List.length_cons, List.length_nil] at hlength
  omega

theorem symbol_of_mem {value : List Char} (h : value ∈ bareSymbol) :
    symbol value = ':' :: value := by
  rw [symbol, if_pos (mem_bareSymbol.mp h)]

theorem symbol_of_not_mem {value : List Char} (h : value ∉ bareSymbol) :
    symbol value = ':' :: doubleQuoted value := by
  rw [symbol, if_neg fun hbare => h (mem_bareSymbol.mpr hbare)]

/-- A symbol is bare exactly for the words of the grammar. -/
theorem symbol_eq_cons_iff {value : List Char} :
    symbol value = ':' :: value ↔ value ∈ bareSymbol := by
  refine ⟨fun heq => ?_, symbol_of_mem⟩
  by_contra h
  rw [symbol_of_not_mem h] at heq
  exact doubleQuoted_ne_self value (List.cons.inj heq).2

/-- **A symbol reads back.**  If what comes after it does not begin with a character that may
continue a bare symbol, the reader returns the symbol and stops where its literal ends.  The
literal is bare exactly for the words of the grammar and quoted for all other symbols, and exactly
the identifiers have a label. -/
theorem symbol_reads_back (value : List Char) :
    (∀ rest : List Char, (∀ c ∈ rest.head?, isContinuation c = false) →
      Scanner.symbol? (symbol value ++ rest) = some (value, rest)) ∧
    (symbol value = ':' :: value ↔ value ∈ bareSymbol) ∧
    (value ∉ bareSymbol → symbol value = ':' :: doubleQuoted value) ∧
    (value ∈ identifier → label? value = some (value ++ [':'])) ∧
    (value ∉ identifier → label? value = none) := by
  refine ⟨fun rest hrest => ?_, symbol_eq_cons_iff, symbol_of_not_mem, fun h => ?_, fun h => ?_⟩
  · by_cases h : value ∈ bareSymbol
    · rw [symbol_of_mem h, List.cons_append, Scanner.symbol?_of_mem_bareSymbol h,
        Scanner.longest?_append h hrest]
    · rw [symbol_of_not_mem h, List.cons_append, Scanner.symbol?_doubleQuoted]
  · rw [label?, if_pos (mem_identifier.mp h)]
  · rw [label?, if_neg fun hname => h (mem_identifier.mpr hname)]

/-- An operator that another one begins with, a name with a space in it, an identifier, and a name
that is none. -/
theorem symbol_reads_back_spaceship :
    Scanner.symbol? (symbol "<=".toList ++ " x".toList) = some ("<=".toList, " x".toList) ∧
      symbol "a b".toList = ':' :: doubleQuoted "a b".toList ∧
      label? "key".toList = some ("key".toList ++ [':']) ∧ label? "key?".toList = none :=
  ⟨(symbol_reads_back "<=".toList).1 " x".toList (by decide),
    (symbol_reads_back "a b".toList).2.2.1 (by decide),
    (symbol_reads_back "key".toList).2.2.2.1 (by decide),
    (symbol_reads_back "key?".toList).2.2.2.2 (by decide)⟩

end Literal
end TerseRuby
