import TerseRuby.Render.Text
import TerseRuby.Tree.Value

/-!
# Drafts

A rule does not write a text at once.  It writes pieces, one after the other, and the pieces are
joined when the text is needed: where it becomes an operand, an argument or a slot, and at the end
of the file.  Most pieces are texts.  But a name is written as it stands in the tree, and where the
tree has something else in its place the piece is *foreign*: an absent or empty value writes
nothing, and any other spoils the draft.  This is noticed only when the draft is joined, so a
failure while the rest of it is written comes first.

The failure tells how many pieces stand before the foreign one.  Empty pieces do not count, and
whether a blank that may be left out counts depends on the options, so `Draft.build` reports it
apart and `Fault.settle` decides.
-/

set_option autoImplicit false

namespace TerseRuby

/-- A piece of a draft. -/
inductive Piece where
  /-- A text. -/
  | text (t : Text)
  /-- A value that is no text, by its type. -/
  | foreign (typeName : String)
  deriving DecidableEq, Repr

/-- Pieces in the order in which they were written. -/
abbrev Draft := List Piece

namespace Draft

/-- A text as a piece. -/
def of (t : Text) : Draft := [.text t]

/-- A string as a piece. -/
def lit (s : String) : Draft := of (Text.lit s)

/-- A separator between statements. -/
def separator : Draft := of [.separator]

/-- A name, or another word that is written as it stands in the tree. -/
def word (v : Value) : Draft :=
  match v.text? with
  | some s => lit s
  | none => if v.isTrue then [.foreign v.typeName] else []

/-- A draft between parentheses. -/
def parenthesized (d : Draft) : Draft := lit "(" ++ d ++ lit ")"

/-- A draft between parentheses, if they are needed. -/
def grouped (needed : Bool) (d : Draft) : Draft := if needed then parenthesized d else d

/-! ## Joining the pieces -/

/-- How many pieces a text counts for. -/
def weight (t : Text) : Nat := if t.isEmpty || t == [.optionalBlank] then 0 else 1

/-- How many blanks that may be left out a text counts for. -/
def blankWeight (t : Text) : Nat := if t == [.optionalBlank] then 1 else 0

/-- The text of a draft, after the given numbers of pieces and of blanks that may be left out. -/
def buildAfter (pieces blanks : Nat) : Draft → Except Fault Text
  | [] => .ok []
  | .text t :: rest => do
    return t ++ (← buildAfter (pieces + weight t) (blanks + blankWeight t) rest)
  | .foreign typeName :: _ => .error (.notText typeName pieces blanks)

/-- The text of a draft.  The first foreign piece is the failure. -/
def build (d : Draft) : Except Fault Text := buildAfter 0 0 d

@[simp] theorem build_nil : build [] = .ok [] := rfl

@[simp] theorem build_of (t : Text) : build (of t) = .ok t := by
  simp [build, of, buildAfter, bind, Except.bind, pure, Except.pure]

/-- How much was counted before a draft does not matter to its text. -/
theorem buildAfter_eq_ok_iff (d : Draft) (pieces blanks : Nat) (t : Text) :
    buildAfter pieces blanks d = .ok t ↔ build d = .ok t := by
  have step : ∀ (d : Draft) (p b p' b' : Nat) (t : Text),
      buildAfter p b d = .ok t → buildAfter p' b' d = .ok t := by
    intro d
    induction d with
    | nil => intro p b p' b' t h; exact h
    | cons piece rest ih =>
      intro p b p' b' t h
      cases piece with
      | foreign typeName => exact nomatch h
      | text s =>
        rw [buildAfter] at h ⊢
        cases hrest : buildAfter (p + weight s) (b + blankWeight s) rest with
        | error fault => rw [hrest] at h; exact nomatch h
        | ok u =>
          rw [hrest] at h
          rw [ih _ _ (p' + weight s) (b' + blankWeight s) u hrest]
          exact h
  exact ⟨step d _ _ _ _ t, step d _ _ _ _ t⟩

/-- A draft that begins with a text has a text if the rest has one. -/
theorem build_text_cons_eq_ok_iff (s : Text) (d : Draft) (t : Text) :
    build (.text s :: d) = .ok t ↔ ∃ u, build d = .ok u ∧ t = s ++ u := by
  rw [build, buildAfter]
  cases h : buildAfter (0 + weight s) (0 + blankWeight s) d with
  | error fault =>
    have failed (u : Text) : build d ≠ .ok u := fun hu => by
      rw [(buildAfter_eq_ok_iff d _ _ u).2 hu] at h
      exact nomatch h
    simp [bind, Except.bind, failed]
  | ok u =>
    simp [bind, Except.bind, pure, Except.pure, (buildAfter_eq_ok_iff d _ _ u).1 h, eq_comm]

/-- Two drafts one after the other have a text if both have one. -/
theorem build_append_eq_ok_iff (d e : Draft) (t : Text) :
    build (d ++ e) = .ok t ↔ ∃ u v, build d = .ok u ∧ build e = .ok v ∧ t = u ++ v := by
  induction d generalizing t with
  | nil => simp
  | cons piece rest ih =>
    cases piece with
    | foreign typeName => simp [build, buildAfter]
    | text s =>
      simp only [List.cons_append, build_text_cons_eq_ok_iff, ih]
      constructor
      · rintro ⟨_, ⟨u, v, hu, hv, rfl⟩, rfl⟩
        exact ⟨s ++ u, v, ⟨u, hu, rfl⟩, hv, by simp⟩
      · rintro ⟨_, v, ⟨u, hu, rfl⟩, hv, rfl⟩
        exact ⟨u ++ v, ⟨u, v, hu, hv, rfl⟩, by simp⟩

end Draft

/-- A failure under some options: a blank that may be left out counts as a piece if it is
written. -/
def Fault.settle (o : Options) : Fault → Fault
  | .notText typeName pieces blanks =>
    .notText typeName (if o.spaceAfterKeywords then pieces + blanks else pieces) 0
  | fault => fault

end TerseRuby
