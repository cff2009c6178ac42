import TerseRuby.Render

/-!
# Spelling separators early

The rules write a separator as a glyph of its own, and which character it is gets decided when the
whole text is there.  A rule looks at the first or the last character of a text to keep tokens
apart, and so it could, for all that the types say, depend on that glyph not being a character.
This file and `Proofs/Rendering/Rules.lean` show that no rule does.

* `Text.punctuate o`, and the same for drafts and renditions: separators are replaced by the
  character that the options choose.
* What a rule asks about a text has the same answer after this replacement, and what it makes of
  texts and drafts commutes with it.
* `Writer.bind_eq_bind`: two writers whose drafts agree once separators are spelled can stand for
  each other.
-/

set_option autoImplicit false

namespace TerseRuby

/-! ## Texts -/

/-- A glyph, if it is a separator the character that the options choose for it. -/
def Glyph.punctuate (o : Options) : Glyph → Glyph
  | .separator => .char o.separator
  | g => g

@[simp] theorem Glyph.punctuate_punctuate (o : Options) (g : Glyph) :
    (g.punctuate o).punctuate o = g.punctuate o := by
  cases g <;> rfl

/-- A test that holds of neither separator does not hold of the one that the options choose. -/
theorem Options.separator_eq_false (o : Options) {p : Char → Bool}
    (h : p ';' = false ∧ p '\n' = false) : p o.separator = false := by
  rw [Options.separator]
  split
  · exact h.1
  · exact h.2

namespace Text

variable (o : Options)

/-- A text with its separators spelled. -/
def punctuate (t : Text) : Text := t.map (Glyph.punctuate o)

@[simp] theorem punctuate_append (s t : Text) :
    punctuate o (s ++ t) = punctuate o s ++ punctuate o t :=
  List.map_append

@[simp] theorem punctuate_ofChars (cs : List Char) : punctuate o (ofChars cs) = ofChars cs := by
  simp [punctuate, ofChars, Glyph.punctuate]

@[simp] theorem punctuate_lit (s : String) : punctuate o (lit s) = lit s := punctuate_ofChars o _

@[simp] theorem punctuate_optionalBlank : punctuate o [.optionalBlank] = [.optionalBlank] := rfl

@[simp] theorem punctuate_punctuate (t : Text) : punctuate o (punctuate o t) = punctuate o t := by
  simp [punctuate]

/-! ### What the rules ask -/

@[simp] theorem punctuate_eq_nil (t : Text) : punctuate o t = [] ↔ t = [] := List.map_eq_nil_iff

@[simp] theorem isEmpty_punctuate (t : Text) : (punctuate o t).isEmpty = t.isEmpty := by
  simp [punctuate]

theorem startsWith_punctuate {p : Char → Bool} (hp : p ';' = false ∧ p '\n' = false) (t : Text) :
    (punctuate o t).startsWith p = t.startsWith p := by
  rcases t with _ | ⟨_ | _ | _, t⟩
  · rfl
  · rfl
  · exact o.separator_eq_false hp
  · rfl

theorem endsWith_punctuate {p : Char → Bool} (hp : p ';' = false ∧ p '\n' = false) (t : Text) :
    (punctuate o t).endsWith p = t.endsWith p := by
  rw [endsWith, endsWith, punctuate, List.getLast?_map]
  rcases t.getLast? with _ | _ | _ | _
  · rfl
  · rfl
  · exact o.separator_eq_false hp
  · rfl

@[simp] theorem keywordGap_punctuate (t : Text) : keywordGap (punctuate o t) = keywordGap t := by
  rw [keywordGap, keywordGap, isEmpty_punctuate, startsWith_punctuate o (by decide)]

@[simp] theorem punctuate_keywordGap (t : Text) : punctuate o (keywordGap t) = keywordGap t := by
  rw [keywordGap]
  split <;> rfl

@[simp] theorem equals_punctuate (t : Text) : equals (punctuate o t) = equals t := by
  rw [equals, equals, startsWith_punctuate o (by decide)]

@[simp] theorem punctuate_equals (t : Text) : punctuate o (equals t) = equals t := by
  rw [equals]
  split <;> exact punctuate_lit o _

@[simp] theorem endsWith_isNameMark_punctuate (t : Text) :
    (punctuate o t).endsWith isNameMark = t.endsWith isNameMark :=
  endsWith_punctuate o (by decide) t

theorem fuses_punctuate (leftIsSymbol : Bool) (left : Text) (operator : String) :
    fuses leftIsSymbol (punctuate o left) operator = fuses leftIsSymbol left operator := by
  rw [fuses, fuses, endsWith_isNameMark_punctuate, endsWith_punctuate o (by decide)]

/-! ### What the rules make -/

@[simp] theorem joinInfix_punctuate (leftIsSymbol : Bool) (left : Text) (operator : String)
    (right : Text) :
    joinInfix leftIsSymbol (punctuate o left) operator (punctuate o right) =
      punctuate o (joinInfix leftIsSymbol left operator right) := by
  rw [joinInfix, joinInfix, fuses_punctuate]
  split <;> simp

@[simp] theorem joinLabel_punctuate (label value : Text) :
    joinLabel (punctuate o label) (punctuate o value) = punctuate o (joinLabel label value) := by
  rw [joinLabel, joinLabel, startsWith_punctuate o (by decide)]
  split <;> simp

/-- A label has no separators of its own. -/
theorem joinLabel_punctuate_right {label : Text} (h : punctuate o label = label) (value : Text) :
    joinLabel label (punctuate o value) = punctuate o (joinLabel label value) := by
  conv => lhs; rw [← h]
  exact joinLabel_punctuate o label value

@[simp] theorem grouped_punctuate (needed : Bool) (t : Text) :
    grouped needed (punctuate o t) = punctuate o (grouped needed t) := by
  rcases needed with _ | _ <;> simp [grouped, parenthesized]

@[simp] theorem commaSeparated_punctuate (parts : List Text) :
    commaSeparated (parts.map (punctuate o)) = punctuate o (commaSeparated parts) := by
  rw [commaSeparated, commaSeparated]
  induction parts with
  | nil => rfl
  | cons t rest ih =>
    rcases rest with _ | ⟨u, rest⟩
    · simp
    · rw [List.map_cons] at ih
      rw [List.map_cons, List.map_cons, List.intercalate_cons_cons, List.intercalate_cons_cons, ih,
        punctuate_append, punctuate_append, punctuate_lit]

end Text

/-! ## Drafts -/

/-- A piece with its separators spelled. -/
def Piece.punctuate (o : Options) : Piece → Piece
  | .text t => .text (t.punctuate o)
  | .foreign typeName => .foreign typeName

@[simp] theorem Piece.punctuate_punctuate (o : Options) (p : Piece) :
    (p.punctuate o).punctuate o = p.punctuate o := by
  cases p <;> simp [punctuate]

namespace Draft

variable (o : Options)

/-- A draft with its separators spelled. -/
def punctuate (d : Draft) : Draft := d.map (Piece.punctuate o)

@[simp] theorem punctuate_nil : punctuate o [] = [] := rfl

@[simp] theorem punctuate_append (d e : Draft) :
    punctuate o (d ++ e) = punctuate o d ++ punctuate o e :=
  List.map_append

@[simp] theorem punctuate_punctuate (d : Draft) :
    punctuate o (punctuate o d) = punctuate o d := by
  simp [punctuate]

@[simp] theorem punctuate_comp_punctuate : punctuate o ∘ punctuate o = punctuate o :=
  funext (punctuate_punctuate o)

@[simp] theorem punctuate_of (t : Text) : punctuate o (of t) = of (t.punctuate o) := rfl

@[simp] theorem punctuate_lit (s : String) : punctuate o (lit s) = lit s := by
  simp [lit]

@[simp] theorem punctuate_word (v : Value) : punctuate o (word v) = word v := by
  rw [word]
  split
  · exact punctuate_lit o _
  · split <;> rfl

@[simp] theorem punctuate_parenthesized (d : Draft) :
    punctuate o (parenthesized d) = parenthesized (punctuate o d) := by
  simp [parenthesized]

@[simp] theorem punctuate_grouped (needed : Bool) (d : Draft) :
    punctuate o (grouped needed d) = grouped needed (punctuate o d) := by
  rcases needed with _ | _ <;> simp [grouped]

@[simp] theorem punctuate_ite (p : Prop) [Decidable p] (d e : Draft) :
    punctuate o (if p then d else e) = if p then punctuate o d else punctuate o e :=
  apply_ite (punctuate o) p d e

@[simp] theorem punctuate_flatten (ds : List Draft) :
    punctuate o ds.flatten = (ds.map (punctuate o)).flatten :=
  List.map_flatten

@[simp] theorem afterKeyword_punctuate (t : Text) :
    afterKeyword (t.punctuate o) = punctuate o (afterKeyword t) := by
  simp [afterKeyword]

@[simp] theorem assigned_punctuate (t : Text) :
    assigned (t.punctuate o) = punctuate o (assigned t) := by
  simp [assigned]

theorem punctuate_eq_optionalBlank (t : Text) :
    (t.punctuate o == [.optionalBlank]) = (t == [.optionalBlank]) := by
  rcases t with _ | ⟨_ | _ | _, _ | ⟨g, t⟩⟩ <;> rfl

theorem weight_punctuate (t : Text) : weight (t.punctuate o) = weight t := by
  rw [weight, weight, punctuate_eq_optionalBlank, Text.isEmpty_punctuate]

theorem blankWeight_punctuate (t : Text) : blankWeight (t.punctuate o) = blankWeight t := by
  rw [blankWeight, blankWeight, punctuate_eq_optionalBlank]

theorem buildAfter_punctuate (d : Draft) (pieces blanks : Nat) :
    (punctuate o d).buildAfter pieces blanks = Text.punctuate o <$> d.buildAfter pieces blanks := by
  induction d generalizing pieces blanks with
  | nil => rfl
  | cons piece rest ih =>
    rcases piece with t | typeName
    · have hcons : punctuate o (.text t :: rest) = .text (t.punctuate o) :: punctuate o rest := rfl
      rw [hcons, buildAfter, buildAfter, ih, weight_punctuate, blankWeight_punctuate]
      simp
    · rfl

/-- Spelling the separators of a draft changes neither whether it can be joined nor how it fails. -/
theorem build_punctuate (d : Draft) : (punctuate o d).build = Text.punctuate o <$> d.build :=
  buildAfter_punctuate o d 0 0

end Draft

/-! ## Renditions -/

namespace Writer

variable (o : Options)

@[simp] theorem map_throw {α β : Type} (f : α → β) (fault : Fault) :
    f <$> (throw fault : Writer α) = throw fault := rfl

@[simp] theorem map_ite {α β : Type} (p : Prop) [Decidable p] (f : α → β) (w w' : Writer α) :
    f <$> (if p then w else w') = if p then f <$> w else f <$> w' :=
  apply_ite (f <$> ·) p w w'

@[simp] theorem liftM_map {α β : Type} (f : α → β) (e : Except Fault α) :
    (liftM (f <$> e) : Writer β) = f <$> (liftM e : Writer α) := by
  rcases e with _ | _ <;> rfl

@[simp] theorem built_punctuate (w : Writer Draft) :
    built (Draft.punctuate o <$> w) = Text.punctuate o <$> built w := by
  simp only [built, bind_map_left, map_bind, Draft.build_punctuate, liftM_map]

@[simp] theorem withLocals_map {α β : Type} (start : Locals → Locals) (f : α → β) (w : Writer α) :
    withLocals start (f <$> w) = f <$> withLocals start w := by
  simp [withLocals]

@[simp] theorem withBraces_map {α β : Type} (braces : Bool) (f : α → β) (w : Writer α) :
    withBraces braces (f <$> w) = f <$> withBraces braces w := rfl

section Congruence

variable {o : Options} {β : Type} {w w' : Writer Draft} {k k' : Draft → Writer β}

/-- Two writers that agree once the separators are spelled can stand for each other before
something that does not look at which of the two spellings it is given. -/
theorem bind_eq_bind (h : Draft.punctuate o <$> w' = Draft.punctuate o <$> w)
    (hk : ∀ d' d, Draft.punctuate o d' = Draft.punctuate o d → k' d' = k d) :
    w' >>= k' = w >>= k := by
  have hleft (d : Draft) : k' d = k (Draft.punctuate o d) := hk d _ (by simp)
  have hright (d : Draft) : k (Draft.punctuate o d) = k d := by rw [← hleft, hk d d rfl]
  calc w' >>= k'
      = (Draft.punctuate o <$> w') >>= k := by simp only [bind_map_left, ← hleft]
    _ = (Draft.punctuate o <$> w) >>= k := by rw [h]
    _ = w >>= k := by simp only [bind_map_left, hright]


theorem withLocals_congr (start : Locals → Locals)
    (h : Draft.punctuate o <$> w' = Draft.punctuate o <$> w) :
    Draft.punctuate o <$> withLocals start w' = Draft.punctuate o <$> withLocals start w := by
  rw [← withLocals_map, ← withLocals_map, h]

theorem withBraces_congr (braces : Bool)
    (h : Draft.punctuate o <$> w' = Draft.punctuate o <$> w) :
    Draft.punctuate o <$> withBraces braces w' = Draft.punctuate o <$> withBraces braces w := by
  rw [← withBraces_map, ← withBraces_map, h]

theorem built_congr (h : Draft.punctuate o <$> w' = Draft.punctuate o <$> w) :
    Text.punctuate o <$> built w' = Text.punctuate o <$> built w := by
  rw [← built_punctuate, ← built_punctuate, h]

end Congruence
end Writer

namespace Rendition

variable (o : Options)

/-- A rendition that spells its separators. -/
def punctuate (r : Rendition) : Rendition :=
  ⟨r.value, fun role => Draft.punctuate o <$> r.write role⟩

@[simp] theorem value_punctuate (r : Rendition) : (r.punctuate o).value = r.value := rfl

@[simp] theorem write_punctuate (r : Rendition) (role : Role) :
    (r.punctuate o).write role = Draft.punctuate o <$> r.write role := rfl

@[simp] theorem punctuate_punctuate (r : Rendition) :
    (r.punctuate o).punctuate o = r.punctuate o := by
  simp [punctuate]

@[simp] theorem text_punctuate (r : Rendition) (role : Role) :
    (r.punctuate o).text role = Text.punctuate o <$> r.text role := by
  simp [text]

@[simp] theorem operand_punctuate (r : Rendition) (parent : Operator) (side : Side) :
    (r.punctuate o).operand parent side = Text.punctuate o <$> r.operand parent side := by
  simp [operand]

@[simp] theorem memberOperand_punctuate (r : Rendition) :
    (r.punctuate o).memberOperand = Text.punctuate o <$> r.memberOperand := by
  simp [memberOperand]

@[simp] theorem assignedValue_punctuate (r : Rendition) :
    (r.punctuate o).assignedValue = Draft.punctuate o <$> r.assignedValue := by
  simp [assignedValue]

end Rendition

namespace FieldRendition

variable (o : Options)

/-- The rendition of a field that spells its separators. -/
def punctuate (r : FieldRendition) : FieldRendition :=
  ⟨r.toRendition.punctuate o, r.elements.map (Rendition.punctuate o)⟩

@[simp] theorem toRendition_punctuate (r : FieldRendition) :
    (r.punctuate o).toRendition = r.toRendition.punctuate o := rfl

@[simp] theorem elements_punctuate (r : FieldRendition) :
    (r.punctuate o).elements = r.elements.map (Rendition.punctuate o) := rfl

@[simp] theorem punctuate_punctuate (r : FieldRendition) :
    (r.punctuate o).punctuate o = r.punctuate o := by
  simp [punctuate]

@[simp] theorem sequence_punctuate (r : FieldRendition) :
    (r.punctuate o).sequence = List.map (Rendition.punctuate o) <$> r.sequence := by
  rw [sequence, sequence, toRendition_punctuate, Rendition.value_punctuate]
  split
  · simp
  · rfl

@[simp] theorem ifPresent_punctuate {α : Type} (r : FieldRendition) (w : Writer (List α)) :
    (r.punctuate o).ifPresent w = r.ifPresent w := rfl

theorem ifPresent_map {α : Type} (r : FieldRendition) {f : List α → List α} (hf : f [] = [])
    (w : Writer (List α)) : r.ifPresent (f <$> w) = f <$> r.ifPresent w := by
  rw [ifPresent, ifPresent]
  split
  · simp [hf]
  · rfl

@[simp] theorem ifPresent_text_map (r : FieldRendition) (w : Writer Text) :
    r.ifPresent (Text.punctuate o <$> w) = Text.punctuate o <$> r.ifPresent w :=
  ifPresent_map r rfl w

@[simp] theorem ifPresent_draft_map (r : FieldRendition) (w : Writer Draft) :
    r.ifPresent (Draft.punctuate o <$> w) = Draft.punctuate o <$> r.ifPresent w :=
  ifPresent_map r rfl w

end FieldRendition

/-! ## Slots of a string -/

namespace Literal

variable {σ τ : Type} (f : σ → τ)

/-- A part of a string with what its slot holds replaced. -/
def Part.map : Part σ → Part τ
  | .run text => .run text
  | .foreign typeName => .foreign typeName
  | .slot content => .slot (f content)
  | .other kind => .other kind

/-- A segment with what its slot holds replaced. -/
def Segment.map : Segment σ → Segment τ
  | .run text => .run text
  | .slot content => .slot (f content)

theorem flush_map (p : Pending) :
    (p.flush : Except Fault (List (Segment τ))) = List.map (Segment.map f) <$> p.flush := by
  rw [Pending.flush, Pending.flush]
  rcases p.foreign with _ | ⟨typeName, before⟩
  · by_cases h : (p.runs == 0) = true
    · simp only [h, if_true]
      rfl
    · simp only [h]
      rfl
  · rfl

/-- Which parts make which segments does not depend on what the slots hold. -/
theorem segmentsAfter_map (p : Pending) (parts : List (Part σ)) :
    segmentsAfter p (parts.map (Part.map f)) =
      List.map (Segment.map f) <$> segmentsAfter p parts := by
  induction parts generalizing p with
  | nil => exact flush_map f p
  | cons part parts ih =>
    rcases part with text | typeName | content | kind
    · exact ih _
    · exact ih _
    · simp only [List.map_cons, Part.map, segmentsAfter, ih, flush_map f p]
      simp [Segment.map]
    · rfl

theorem segments_map (parts : List (Part σ)) :
    segments (parts.map (Part.map f)) = List.map (Segment.map f) <$> segments parts :=
  segmentsAfter_map f .empty parts

end Literal

/-- What a part of a string is depends on its value. -/
theorem Rules.stringPart_map {α β : Type} {f : α → β} {value : α → Value} {value' : β → Value}
    {x : α} (h : value' (f x) = value x) :
    stringPart value' (f x) = (stringPart value x).map f := by
  rw [stringPart, stringPart, h]
  split
  · split <;> rfl
  · rfl
  · rfl

end TerseRuby
