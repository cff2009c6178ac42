import TerseRuby.Number.Decimal
import TerseRuby.Literal.Symbol
import TerseRuby.Proofs.Number.Digits
import Mathlib.Data.List.Basic

/-!
# Signatures and how they read

A parameter list is a signature: seven groups in a fixed order, some of which hold at most one
parameter.  It is written as one row of parts with commas between them, and which group a part
belongs to is not written.  This file has the reader that finds out.

* `Signature` is generic in what names and defaults are.  For the writer they are identifiers and
  a few simple values (`Identifier`, `Signature.Default`), for the reader they are texts.
* `Signature.Part` is one part of the row, and `Part.read?` tells its sort by its sign, or by what
  comes after the name at its front.
* `Signature.ofParts?` takes the parts in order, for each group as many as have its sort, and
  `Signature.read?` does that with the parts between the commas.

The parameters before and after a rest parameter have one sort.  If there is neither a rest
parameter nor one with a default between them, nothing tells the two groups apart, and all of them
are read as the first: that is `Signature.normal`.  `Signature.read?_chars` says that this is the
only thing that is lost.
-/

set_option autoImplicit false

namespace TerseRuby

open Decimal (natText)

/-! ## Signatures -/

/-- A text that is an identifier. -/
structure Identifier where
  /-- The text. -/
  text : String
  /-- It is spelled like an identifier. -/
  isIdentifier : Literal.isIdentifier text.toList = true

/-- A default that is a variable, a natural number or a symbol. -/
inductive Signature.Default where
  /-- A variable. -/
  | var (name : Identifier)
  /-- A natural number. -/
  | number (n : Nat)
  /-- A symbol. -/
  | symbol (name : Identifier)

/-- The parameters of a method or block, with names of one type and defaults of another.  A
parameter that takes what remains may have no name. -/
structure Signature (ν δ : Type) where
  /-- The parameters at the front. -/
  requireds : List ν
  /-- Those with a default. -/
  optionals : List (ν × δ)
  /-- The one for the remaining arguments. -/
  rest : Option (Option ν)
  /-- Those after the remaining arguments. -/
  posts : List ν
  /-- Those given by name, with a default or without. -/
  keywords : List (ν × Option δ)
  /-- The one for the remaining named arguments. -/
  keywordRest : Option (Option ν)
  /-- The one for the block. -/
  block : Option (Option ν)

/-- The characters of an identifier. -/
def Identifier.chars (x : Identifier) : List Char := x.text.toList

theorem Identifier.isIdentifier_chars (x : Identifier) :
    Literal.isIdentifier x.chars = true := x.isIdentifier

/-- The characters of a default. -/
def Signature.Default.chars : Signature.Default → List Char
  | var x => x.chars
  | number n => natText n
  | symbol x => ':' :: x.chars

/-- Whether a default is a number with more digits than are written. -/
def Signature.Default.isLong : Signature.Default → Bool
  | number n => Decimal.isLong n
  | _ => false

namespace Signature

variable {ν δ : Type}

/-- Whether there is such a number among the defaults of a signature. -/
def hasLong (s : Signature Identifier Default) : Bool :=
  (s.optionals.any fun p => p.2.isLong) || s.keywords.any fun p => p.2.any Default.isLong

/-- A signature with its names and defaults as texts. -/
def texts (s : Signature Identifier Default) : Signature (List Char) (List Char) where
  requireds := s.requireds.map Identifier.chars
  optionals := s.optionals.map (Prod.map Identifier.chars Default.chars)
  rest := s.rest.map (Option.map Identifier.chars)
  posts := s.posts.map Identifier.chars
  keywords := s.keywords.map (Prod.map Identifier.chars (Option.map Default.chars))
  keywordRest := s.keywordRest.map (Option.map Identifier.chars)
  block := s.block.map (Option.map Identifier.chars)

/-- A signature whose parameters without a default are all at the front, if there is nothing
between its first ones and its last ones. -/
def normal (s : Signature ν δ) : Signature ν δ :=
  if s.optionals.isEmpty && s.rest.isNone then
    { s with requireds := s.requireds ++ s.posts, posts := [] }
  else s

/-- The names of a signature, in order. -/
def names (s : Signature ν δ) : List ν :=
  s.requireds ++ s.optionals.map Prod.fst ++ s.rest.toList.flatMap Option.toList ++ s.posts
    ++ s.keywords.map Prod.fst ++ s.keywordRest.toList.flatMap Option.toList
    ++ s.block.toList.flatMap Option.toList

end Signature

/-! ## Parts -/

namespace Signature

/-- A part of a parameter list. -/
inductive Part where
  /-- A parameter without a default. -/
  | plain (name : List Char)
  /-- A parameter with a default. -/
  | optional (name value : List Char)
  /-- The parameter for the remaining arguments. -/
  | rest (name : Option (List Char))
  /-- A parameter given by name, with a default or without. -/
  | keyword (name : List Char) (value : Option (List Char))
  /-- The parameter for the remaining named arguments. -/
  | keywordRest (name : Option (List Char))
  /-- The parameter for the block. -/
  | block (name : Option (List Char))

namespace Part

/-- A default after the colon of a label, which a second colon must not follow. -/
def afterLabel (value : List Char) : List Char :=
  if value.head? = some ':' then ' ' :: value else value

/-- The spelling of a part. -/
def chars : Part → List Char
  | plain name => name
  | optional name value => name ++ '=' :: value
  | rest name => '*' :: name.getD []
  | keyword name value => name ++ ':' :: (value.map afterLabel).getD []
  | keywordRest name => '*' :: '*' :: name.getD []
  | block name => '&' :: name.getD []

/-- A text, if it is an identifier. -/
def name? (text : List Char) : Option (List Char) :=
  if Literal.isIdentifier text then some text else none

/-- The name after a sign, which may be missing. -/
def signed? (text : List Char) : Option (Option (List Char)) :=
  if text.isEmpty then some none else (name? text).map some

/-- What a label is followed by: a default, after a blank or not, or nothing. -/
def labelled : List Char → Option (List Char)
  | [] => none
  | ' ' :: value => some value
  | value => some value

/-- The part with a name in front, by what comes after the name. -/
def named? (name : List Char) : List Char → Option Part
  | [] => some (plain name)
  | '=' :: value => some (optional name value)
  | ':' :: value => some (keyword name (labelled value))
  | _ => none

/-- The part that a text spells.  Its sort is told by the sign in front or, if there is none, by
what comes after the name. -/
def read? : List Char → Option Part
  | '*' :: '*' :: text => (signed? text).map keywordRest
  | '*' :: text => (signed? text).map rest
  | '&' :: text => (signed? text).map block
  | text =>
    (name? (text.takeWhile CharClass.isWord)).bind fun name =>
      named? name (text.dropWhile CharClass.isWord)

/-- The name of a parameter without a default. -/
def plain? : Part → Option (List Char)
  | plain name => some name
  | _ => none

/-- The name and the default of a parameter with a default. -/
def optional? : Part → Option (List Char × List Char)
  | optional name value => some (name, value)
  | _ => none

/-- The name of a parameter for the remaining arguments, if it has one. -/
def rest? : Part → Option (Option (List Char))
  | rest name => some name
  | _ => none

/-- The name and the default of a parameter given by name. -/
def keyword? : Part → Option (List Char × Option (List Char))
  | keyword name value => some (name, value)
  | _ => none

/-- The name of a parameter for the remaining named arguments, if it has one. -/
def keywordRest? : Part → Option (Option (List Char))
  | keywordRest name => some name
  | _ => none

/-- The name of a parameter for the block, if it has one. -/
def block? : Part → Option (Option (List Char))
  | block name => some name
  | _ => none

/-! ### Reading a part back -/

/-- A value that can stand after a label or an equals sign: it is not empty, does not begin with a
blank and has no comma. -/
def IsValue (text : List Char) : Prop := text ≠ [] ∧ text.head? ≠ some ' ' ∧ ',' ∉ text

/-- The names of a part are identifiers and its value is one. -/
def IsProper : Part → Prop
  | plain name => Literal.isIdentifier name = true
  | optional name value => Literal.isIdentifier name = true ∧ IsValue value
  | keyword name value => Literal.isIdentifier name = true ∧ ∀ text ∈ value, IsValue text
  | rest name => ∀ text ∈ name, Literal.isIdentifier text = true
  | keywordRest name => ∀ text ∈ name, Literal.isIdentifier text = true
  | block name => ∀ text ∈ name, Literal.isIdentifier text = true

theorem name?_of_isIdentifier {name : List Char} (h : Literal.isIdentifier name = true) :
    name? name = some name := if_pos h

theorem signed?_getD {name : Option (List Char)}
    (h : ∀ text ∈ name, Literal.isIdentifier text = true) : signed? (name.getD []) = some name := by
  cases name with
  | none => rfl
  | some name =>
    have hname := h name rfl
    cases name with
    | nil => cases hname
    | cons c cs => rw [Option.getD_some, signed?, name?_of_isIdentifier hname]; rfl

/-- A name is cut off whole in front of what is no word character. -/
theorem span_name {name tail : List Char} (h : Literal.isIdentifier name = true)
    (htail : ∀ c, tail.head? = some c → CharClass.isWord c = false) :
    (name ++ tail).takeWhile CharClass.isWord = name ∧
      (name ++ tail).dropWhile CharClass.isWord = tail :=
  span_append (Literal.isWord_of_isIdentifier h) htail

/-- A text with a name at its front has no sign there. -/
theorem read?_name {name : List Char} (h : Literal.isIdentifier name = true) (tail : List Char)
    (htail : ∀ c, tail.head? = some c → CharClass.isWord c = false) :
    read? (name ++ tail) = named? name tail := by
  obtain ⟨htake, hdrop⟩ := span_name h htail
  have hhead : (name ++ tail).head? ≠ some '*' ∧ (name ++ tail).head? ≠ some '&' := by
    cases name with
    | nil => cases h
    | cons c cs =>
      have hc := (Bool.and_eq_true_iff.mp h).1
      constructor <;> rintro ⟨⟩ <;> exact absurd hc (by decide)
  rw [read?]
  · rw [htake, hdrop, name?_of_isIdentifier h]
    rfl
  · exact fun text heq => hhead.1 (heq ▸ rfl)
  · exact fun text heq => hhead.1 (heq ▸ rfl)
  · exact fun text heq => hhead.2 (heq ▸ rfl)

theorem labelled_afterLabel {value : Option (List Char)} (h : ∀ text ∈ value, IsValue text) :
    labelled ((value.map afterLabel).getD []) = value := by
  cases value with
  | none => rfl
  | some text =>
    obtain ⟨hne, hblank, -⟩ := h text rfl
    obtain ⟨c, cs, rfl⟩ := List.exists_cons_of_ne_nil hne
    rw [Option.map_some, Option.getD_some, afterLabel]
    split
    · rfl
    · rw [labelled]
      · exact fun heq => hne heq
      · rintro cs' heq
        exact hblank (congrArg List.head? heq)

/-- **A part is read back from its spelling.** -/
theorem read?_chars {p : Part} (h : p.IsProper) : read? p.chars = some p := by
  have hequals : CharClass.isWord '=' = false := by decide
  have hcolon : CharClass.isWord ':' = false := by decide
  cases p with
  | plain name =>
    have hread := read?_name h [] (by simp)
    rwa [List.append_nil] at hread
  | optional name value =>
    exact read?_name h.1 ('=' :: value) fun c hc => Option.some.inj hc ▸ hequals
  | keyword name value =>
    rw [chars, read?_name h.1 (':' :: (value.map afterLabel).getD [])
      fun c hc => Option.some.inj hc ▸ hcolon]
    exact congrArg (some ∘ keyword name) (labelled_afterLabel h.2)
  | rest name =>
    -- A second star would be a sign as well.
    have hstar : (name.getD []).head? ≠ some '*' := by
      cases name with
      | none => simp
      | some text =>
        intro hhead
        have hword := Literal.isWord_of_isIdentifier (h text rfl) '*' (List.mem_of_head? hhead)
        exact absurd hword (by decide)
    rw [chars, read?, signed?_getD h]
    · rfl
    · exact fun text heq => hstar (congrArg List.head? heq)
  | keywordRest name => rw [chars, read?, signed?_getD h]; rfl
  | block name => rw [chars, read?, signed?_getD h]; rfl

theorem comma_not_mem_of_isIdentifier {name : List Char}
    (h : Literal.isIdentifier name = true) : ',' ∉ name := by
  intro hmem
  have hword := Literal.isWord_of_isIdentifier h ',' hmem
  revert hword
  decide

/-- A part has no comma in it. -/
theorem comma_not_mem_chars {p : Part} (h : p.IsProper) : ',' ∉ p.chars := by
  have hsigned {name : Option (List Char)}
      (h : ∀ text ∈ name, Literal.isIdentifier text = true) : ',' ∉ name.getD [] := by
    cases name with
    | none => exact List.not_mem_nil
    | some name => exact comma_not_mem_of_isIdentifier (h name rfl)
  cases p with
  | plain name => exact comma_not_mem_of_isIdentifier h
  | optional name value => simpa [chars] using ⟨comma_not_mem_of_isIdentifier h.1, h.2.2.2⟩
  | keyword name value =>
    have hvalue : ',' ∉ (value.map afterLabel).getD [] := by
      cases value with
      | none => exact List.not_mem_nil
      | some text =>
        have htext := (h.2 text rfl).2.2
        rw [Option.map_some, Option.getD_some, afterLabel]
        split
        · simpa using htext
        · exact htext
    simpa [chars] using ⟨comma_not_mem_of_isIdentifier h.1, by simpa using hvalue⟩
  | rest name => simpa [chars] using hsigned h
  | keywordRest name => simpa [chars] using hsigned h
  | block name => simpa [chars] using hsigned h

theorem chars_ne_nil {p : Part} (h : p.IsProper) : p.chars ≠ [] := by
  cases p with
  | plain name =>
    rintro rfl
    cases h
  | _ => simp [chars]

end Part

/-! ## The reader -/

/-- The parts at the front that have a sort, and the parts that follow them. -/
def group {α : Type} (sort : Part → Option α) : List Part → List α × List Part
  | [] => ([], [])
  | p :: parts =>
    match sort p with
    | some a => let (as, tail) := group sort parts; (a :: as, tail)
    | none => ([], p :: parts)

/-- The part at the front if it has a sort, and the parts that follow. -/
def single {α : Type} (sort : Part → Option α) : List Part → Option α × List Part
  | [] => (none, [])
  | p :: parts =>
    match sort p with
    | some a => (some a, parts)
    | none => (none, p :: parts)

/-- The signature that parts make up, if they come in the order of the groups. -/
def ofParts? (parts : List Part) : Option (Signature (List Char) (List Char)) :=
  let (requireds, parts) := group Part.plain? parts
  let (optionals, parts) := group Part.optional? parts
  let (rest, parts) := single Part.rest? parts
  let (posts, parts) := group Part.plain? parts
  let (keywords, parts) := group Part.keyword? parts
  let (keywordRest, parts) := single Part.keywordRest? parts
  let (block, parts) := single Part.block? parts
  if parts.isEmpty then some ⟨requireds, optionals, rest, posts, keywords, keywordRest, block⟩
  else none

/-- The texts between commas; an empty text has none. -/
def split (text : List Char) : List (List Char) :=
  if text.isEmpty then [] else text.splitOn ','

/-- The signature that a text spells. -/
def read? (text : List Char) : Option (Signature (List Char) (List Char)) :=
  ((split text).mapM Part.read?).bind ofParts?

/-- The parts of a signature, in order. -/
def parts (s : Signature (List Char) (List Char)) : List Part :=
  s.requireds.map .plain ++ s.optionals.map (fun p => .optional p.1 p.2)
    ++ s.rest.toList.map .rest ++ s.posts.map .plain
    ++ s.keywords.map (fun p => .keyword p.1 p.2) ++ s.keywordRest.toList.map .keywordRest
    ++ s.block.toList.map .block

/-- The spelling of a signature. -/
def chars (s : Signature (List Char) (List Char)) : List Char :=
  List.intercalate [','] (s.parts.map Part.chars)

/-! ## The order of the groups -/

section Groups

variable {α : Type} (sort : Part → Option α) (part : α → Part)

/-- A group is taken whole in front of a part of another sort. -/
theorem group_map_append (hsort : ∀ a, sort (part a) = some a) (as : List α) (tail : List Part)
    (htail : ∀ p ∈ tail.head?, sort p = none) :
    group sort (as.map part ++ tail) = (as, tail) := by
  induction as with
  | nil =>
    cases tail with
    | nil => rfl
    | cons p tail => simp [group, htail p rfl]
  | cons a as ih => simp [group, hsort, ih]

theorem single_map_append (hsort : ∀ a, sort (part a) = some a) (a : Option α)
    (tail : List Part) (htail : ∀ p ∈ tail.head?, sort p = none) :
    single sort (a.toList.map part ++ tail) = (a, tail) := by
  cases a with
  | some a => simp [single, hsort]
  | none =>
    cases tail with
    | nil => rfl
    | cons p tail => simp [single, htail p rfl]

end Groups

/-- Parameters without a default come at the back only where something is in between. -/
def IsNormal {ν δ : Type} (s : Signature ν δ) : Prop :=
  s.optionals = [] → s.rest = none → s.posts = []

theorem isNormal_normal {ν δ : Type} (s : Signature ν δ) : s.normal.IsNormal := by
  rw [normal]
  split
  · exact fun _ _ => rfl
  · rename_i h
    exact fun hoptionals hrest => absurd (by simp [hoptionals, hrest]) h

/-- Moving parameters to the front of nothing leaves the parts where they are. -/
theorem parts_normal (s : Signature (List Char) (List Char)) : s.normal.parts = s.parts := by
  rw [normal]
  split
  · rename_i h
    rw [Bool.and_eq_true, List.isEmpty_iff, Option.isNone_iff_eq_none] at h
    simp [parts, h]
  · rfl

/-- The parts that come after the parameters at the back. -/
def partsByName (s : Signature (List Char) (List Char)) : List Part :=
  s.keywords.map (fun p => .keyword p.1 p.2) ++
    (s.keywordRest.toList.map .keywordRest ++ s.block.toList.map .block)

theorem parts_eq (s : Signature (List Char) (List Char)) :
    s.parts = s.requireds.map .plain ++ (s.optionals.map (fun p => .optional p.1 p.2) ++
      (s.rest.toList.map .rest ++ (s.posts.map .plain ++ s.partsByName))) := by
  simp only [parts, partsByName, List.append_assoc]

theorem sort_partsByName {s : Signature (List Char) (List Char)} {α : Type}
    {sort : Part → Option α} (hkeyword : ∀ name value, sort (.keyword name value) = none)
    (hrest : ∀ name, sort (.keywordRest name) = none) (hblock : ∀ name, sort (.block name) = none) :
    ∀ p ∈ s.partsByName, sort p = none := by
  simp only [partsByName, List.forall_mem_append, List.forall_mem_map]
  exact ⟨fun _ _ => hkeyword _ _, fun _ _ => hrest _, fun _ _ => hblock _⟩

/-- In a normal signature the parameters at the front are followed by another sort. -/
theorem plain?_head?_eq_none {s : Signature (List Char) (List Char)} (h : s.IsNormal) :
    ∀ p ∈ (s.optionals.map (fun p => Part.optional p.1 p.2) ++ (s.rest.toList.map Part.rest ++
      (s.posts.map Part.plain ++ s.partsByName))).head?, p.plain? = none := by
  have hbyName : ∀ p ∈ s.partsByName, p.plain? = none :=
    sort_partsByName (fun _ _ => rfl) (fun _ => rfl) fun _ => rfl
  cases hoptionals : s.optionals with
  | cons p ps => rintro _ ⟨rfl⟩; rfl
  | nil =>
    cases hrest : s.rest with
    | some name => rintro _ ⟨rfl⟩; rfl
    | none =>
      rw [h hoptionals hrest]
      exact fun p hp => hbyName p (List.mem_of_head? hp)

/-- **The parts of a normal signature are put back into their groups.** -/
theorem ofParts?_parts {s : Signature (List Char) (List Char)} (h : s.IsNormal) :
    ofParts? s.parts = some s := by
  -- No part has the sort of a group before its own, but for the parameters at the back.
  have hother {parts : List Part} {α : Type} {sort : Part → Option α}
      (hparts : ∀ p ∈ parts, sort p = none) : ∀ p ∈ parts.head?, sort p = none :=
    fun p hp => hparts p (List.mem_of_head? hp)
  have hrequireds := group_map_append Part.plain? .plain (fun _ => rfl) s.requireds _
    (plain?_head?_eq_none h)
  have hoptionals := group_map_append Part.optional? (fun p => .optional p.1 p.2) (fun _ => rfl)
    s.optionals (s.rest.toList.map .rest ++ (s.posts.map .plain ++ s.partsByName)) (hother (by
      simp only [List.forall_mem_append, List.forall_mem_map]
      exact ⟨fun _ _ => rfl, fun _ _ => rfl,
        sort_partsByName (fun _ _ => rfl) (fun _ => rfl) fun _ => rfl⟩))
  have hrest := single_map_append Part.rest? .rest (fun _ => rfl) s.rest
    (s.posts.map .plain ++ s.partsByName) (hother (by
      simp only [List.forall_mem_append, List.forall_mem_map]
      exact ⟨fun _ _ => rfl, sort_partsByName (fun _ _ => rfl) (fun _ => rfl) fun _ => rfl⟩))
  have hposts := group_map_append Part.plain? .plain (fun _ => rfl) s.posts s.partsByName
    (hother (sort_partsByName (fun _ _ => rfl) (fun _ => rfl) fun _ => rfl))
  have hkeywords : group Part.keyword? s.partsByName =
      (s.keywords, s.keywordRest.toList.map .keywordRest ++ s.block.toList.map .block) :=
    group_map_append Part.keyword? (fun p => .keyword p.1 p.2) (fun _ => rfl) s.keywords _
      (hother (by
        simp only [List.forall_mem_append, List.forall_mem_map]
        exact ⟨fun _ _ => rfl, fun _ _ => rfl⟩))
  have hkeywordRest := single_map_append Part.keywordRest? .keywordRest (fun _ => rfl)
    s.keywordRest (s.block.toList.map .block) (hother (by
      simp only [List.forall_mem_map]
      exact fun _ _ => rfl))
  have hblock := single_map_append Part.block? .block (fun _ => rfl) s.block [] (by simp)
  rw [List.append_nil] at hblock
  simp only [parts_eq, ofParts?, hrequireds, hoptionals, hrest, hposts, hkeywords,
    hkeywordRest, hblock, List.isEmpty_nil, if_true]

/-! ## Reading a signature back -/

theorem split_intercalate {texts : List (List Char)}
    (h : ∀ text ∈ texts, text ≠ [] ∧ ',' ∉ text) :
    split (List.intercalate [','] texts) = texts := by
  cases texts with
  | nil => rfl
  | cons text texts =>
    have hne : (List.intercalate [','] (text :: texts)).isEmpty = false := by
      have htext := (h text List.mem_cons_self).1
      cases texts <;> simp [htext]
    rw [split, hne, if_neg Bool.false_ne_true,
      List.splitOn_intercalate ',' (fun text htext => (h text htext).2) (List.cons_ne_nil _ _)]

theorem mapM_read?_chars {parts : List Part} (h : ∀ p ∈ parts, p.IsProper) :
    (parts.map Part.chars).mapM Part.read? = some parts := by
  induction parts with
  | nil => rfl
  | cons p parts ih =>
    obtain ⟨hp, hparts⟩ := List.forall_mem_cons.mp h
    rw [List.map_cons, List.mapM_cons, Part.read?_chars hp, ih hparts]
    rfl

/-- **Only the place of parameters with nothing in between is lost.** -/
theorem read?_chars {s : Signature (List Char) (List Char)} (h : ∀ p ∈ s.parts, p.IsProper) :
    read? s.chars = some s.normal := by
  have hsplit : split s.chars = s.parts.map Part.chars := by
    refine split_intercalate fun text htext => ?_
    obtain ⟨p, hp, rfl⟩ := List.mem_map.mp htext
    exact ⟨Part.chars_ne_nil (h p hp), Part.comma_not_mem_chars (h p hp)⟩
  rw [read?, hsplit, mapM_read?_chars h, Option.bind_some, ← parts_normal,
    ofParts?_parts (isNormal_normal s)]

/-! ### Signatures of identifiers -/

theorem isValue_of_isIdentifier {name : List Char} (h : Literal.isIdentifier name = true) :
    Part.IsValue name := by
  refine ⟨?_, fun hhead => ?_, Part.comma_not_mem_of_isIdentifier h⟩
  · rintro rfl
    cases h
  · have hword := Literal.isWord_of_isIdentifier h ' ' (List.mem_of_head? hhead)
    exact absurd hword (by decide)

theorem isValue_natText (n : Nat) : Part.IsValue (natText n) := by
  have hdigit : ∀ c ∈ natText n, c ≠ ' ' ∧ c ≠ ',' := fun c hc =>
    Decimal.forall_isDigit (P := fun c => c ≠ ' ' ∧ c ≠ ',') (by decide)
      (Decimal.isDigit_of_mem_natText hc)
  exact ⟨Decimal.natText_ne_nil n, fun hhead => (hdigit ' ' (List.mem_of_head? hhead)).1 rfl,
    fun hmem => (hdigit ',' hmem).2 rfl⟩

theorem isValue_default (d : Default) : Part.IsValue d.chars := by
  cases d with
  | var x => exact isValue_of_isIdentifier x.isIdentifier
  | number n => exact isValue_natText n
  | symbol x =>
    have hcomma : ',' ∉ x.chars := Part.comma_not_mem_of_isIdentifier x.isIdentifier
    exact ⟨List.cons_ne_nil _ _, by simp [Default.chars], by simpa [Default.chars] using hcomma⟩

theorem isProper_parts_texts (s : Signature Identifier Default) :
    ∀ p ∈ s.texts.parts, p.IsProper := by
  have hname (x : Option Identifier) :
      ∀ text ∈ x.map Identifier.chars, Literal.isIdentifier text = true := by
    cases x with
    | none => simp
    | some x => simpa using x.isIdentifier_chars
  have hvalue (d : Option Default) : ∀ text ∈ d.map Default.chars, Part.IsValue text := by
    cases d with
    | none => simp
    | some d => simpa using isValue_default d
  simp only [parts, texts, List.forall_mem_append, List.forall_mem_map, Option.toList_map]
  exact ⟨⟨⟨⟨⟨⟨fun x _ => x.isIdentifier, fun p _ => ⟨p.1.isIdentifier, isValue_default p.2⟩⟩,
    fun x _ => hname x⟩, fun x _ => x.isIdentifier⟩,
    fun p _ => ⟨p.1.isIdentifier, hvalue p.2⟩⟩, fun x _ => hname x⟩, fun x _ => hname x⟩

/-- **A signature reads back from its spelling.** -/
theorem read?_chars_texts (s : Signature Identifier Default) :
    read? s.texts.chars = some s.texts.normal :=
  read?_chars (isProper_parts_texts s)

end Signature
end TerseRuby
