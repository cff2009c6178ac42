import TerseRuby.Proofs.Tree.Shape

/-!
# What a writer ends with

A statement about all texts, or about the variables known after a tree, says nothing of the trees
that are refused: it is about the runs that succeed.  `Writer.Ensures inv w Q` is that sort of
statement for one writer.  Whenever a run starts with variables that satisfy `inv` and succeeds, it
ends with such variables and returns something with the property `Q`.

The lemmas here say so of the operations that writers are built from, each from the same for its
parts.

Where the setting decides what is written, the statement is about the runs in one setting
(`Writer.EnsuresIn`), and blocks are written in a setting of their own.  Where it is not about what
is returned, but about what a success shows of the tree, it is `Writer.Needs`.
-/

set_option autoImplicit false

namespace TerseRuby
namespace Writer

variable {α β : Type} {inv : Locals → Prop} {Q : α → Prop} {R : β → Prop}

/-- Every run that starts with variables that satisfy `inv` and succeeds ends with such variables,
and returns something with the property `Q`. -/
def Ensures (inv : Locals → Prop) (w : Writer α) (Q : α → Prop) : Prop :=
  ∀ s l a l', inv l → (w.run s).run l = .ok (a, l') → inv l' ∧ Q a

/-- The property may be weakened. -/
theorem Ensures.imp {w : Writer α} {Q' : α → Prop} (hw : Ensures inv w Q)
    (h : ∀ a, Q a → Q' a) : Ensures inv w Q' :=
  fun s l a l' hl hrun => ⟨(hw s l a l' hl hrun).1, h a (hw s l a l' hl hrun).2⟩

theorem ensures_pure {a : α} (h : Q a) : Ensures inv (pure a) Q := by
  intro s l b l' hl hrun
  cases hrun
  exact ⟨hl, h⟩

theorem ensures_throw (fault : Fault) : Ensures inv (throw fault : Writer α) Q := by
  intro s l a l' _ hrun
  cases hrun

theorem Ensures.bind {w : Writer α} {f : α → Writer β} (hw : Ensures inv w Q)
    (hf : ∀ a, Q a → Ensures inv (f a) R) : Ensures inv (w >>= f) R := by
  intro s l b l' hl hrun
  rw [ReaderT.run_bind, StateT.run_bind] at hrun
  obtain ⟨⟨a, m⟩, hfirst, hrest⟩ := exists_of_bind_eq_ok hrun
  obtain ⟨hm, ha⟩ := hw s l a m hl hfirst
  exact hf a ha s m b l' hm hrest

/-- Whatever comes before. -/
theorem ensures_after {w : Writer α} {f : α → Writer β}
    (h : ∀ a, (f a).Ensures (fun _ => True) R) : (w >>= f).Ensures (fun _ => True) R :=
  Ensures.bind (Q := fun _ => True) (fun _ _ _ _ _ _ => ⟨trivial, trivial⟩) fun a _ => h a

theorem Ensures.map {w : Writer α} {f : α → β} (hw : Ensures inv w Q) (hf : ∀ a, Q a → R (f a)) :
    Ensures inv (f <$> w) R := by
  rw [map_eq_pure_bind]
  exact hw.bind fun a ha => ensures_pure (hf a ha)

theorem ensures_ite {p : Prop} [Decidable p] {w w' : Writer α} (h : p → Ensures inv w Q)
    (h' : ¬p → Ensures inv w' Q) : Ensures inv (if p then w else w') Q := by
  split
  · exact h ‹_›
  · exact h' ‹_›

theorem ensures_mapM {γ : Type} {xs : List γ} {f : γ → Writer α}
    (h : ∀ x ∈ xs, Ensures inv (f x) Q) : Ensures inv (xs.mapM f) fun as => ∀ a ∈ as, Q a := by
  induction xs with
  | nil => exact ensures_pure (List.forall_mem_nil _)
  | cons x xs ih =>
    rw [List.forall_mem_cons] at h
    rw [List.mapM_cons]
    exact h.1.bind fun a ha => (ih h.2).bind fun as has =>
      ensures_pure (List.forall_mem_cons.mpr ⟨ha, has⟩)

/-! ## What a writer looks at -/

theorem ensures_lift {e : Except Fault α} (h : ∀ a, e = .ok a → Q a) :
    Ensures inv (liftM e : Writer α) Q := by
  cases e with
  | error fault => exact ensures_throw fault
  | ok a => exact ensures_pure (h a rfl)

theorem ensures_read : Ensures inv (read : Writer Setting) fun _ => True := by
  intro s l a l' hl hrun
  cases hrun
  exact ⟨hl, trivial⟩

theorem ensures_get : Ensures inv (get : Writer Locals) fun _ => True := by
  intro s l a l' hl hrun
  cases hrun
  exact ⟨hl, trivial⟩

/-- What is shown of a value is its display. -/
theorem ensures_shown {v : Value} {Q : String → Prop} (h : Q v.display) :
    Ensures inv (liftM v.shown : Writer String) Q :=
  ensures_lift fun _ ht => Value.display_of_shown ht ▸ h

theorem ensures_integer {v : Value} {Q : Draft → Prop} (h : Q (Draft.lit v.display)) :
    Ensures inv (liftM (Rules.integer v) : Writer Draft) Q := by
  refine ensures_lift fun d hd => ?_
  obtain ⟨text, htext, hd⟩ := exists_of_bind_eq_ok hd
  cases hd
  exact Value.display_of_shown htext ▸ h

/-! ## Scopes -/

theorem ensures_declare {name : Value} (h : ∀ l, inv l → inv (name :: l)) :
    Ensures inv (declare name) fun _ => True := by
  refine (ensures_lift (Q := fun _ => True) fun _ _ => trivial).bind fun _ _ => ?_
  intro s l a l' hl hrun
  cases hrun
  exact ⟨h l hl, trivial⟩

/-- After a scope of its own the variables are those from before. -/
theorem Ensures.withLocals (inner : Locals → Prop) {w : Writer α} {start : Locals → Locals}
    (hstart : ∀ l, inv l → inner (start l)) (hw : Ensures inner w Q) :
    Ensures inv (withLocals start w) Q := by
  intro s l a l' hl hrun
  have hscope : ((w.run s).run (start l)).bind (fun p => .ok (p.1, l)) = .ok (a, l') := hrun
  obtain ⟨⟨b, m⟩, hinner, hend⟩ := exists_of_bind_eq_ok hscope
  cases hend
  exact ⟨hl, (hw s _ b m (hstart l hl) hinner).2⟩

theorem Ensures.withBraces {w : Writer α} (hw : Ensures inv w Q) (braces : Bool) :
    Ensures inv (withBraces braces w) Q :=
  fun s l a l' hl hrun => hw { s with braceBlocks := braces } l a l' hl hrun

/-! ## In one setting -/

/-- Every run in one setting that succeeds returns something with the property `Q`. -/
def EnsuresIn (s : Setting) (w : Writer α) (Q : α → Prop) : Prop :=
  ∀ l a l', (w.run s).run l = .ok (a, l') → Q a

section InSetting

variable {s : Setting}

theorem Ensures.inSetting {w : Writer α} (hw : Ensures (fun _ => True) w Q) (s : Setting) :
    EnsuresIn s w Q :=
  fun l a l' hrun => (hw s l a l' trivial hrun).2

theorem EnsuresIn.imp {w : Writer α} {Q' : α → Prop} (hw : EnsuresIn s w Q)
    (h : ∀ a, Q a → Q' a) : EnsuresIn s w Q' :=
  fun l a l' hrun => h a (hw l a l' hrun)

theorem ensuresIn_pure {a : α} (h : Q a) : EnsuresIn s (pure a) Q :=
  Ensures.inSetting (ensures_pure h) s

theorem ensuresIn_throw (fault : Fault) : EnsuresIn s (throw fault : Writer α) Q :=
  Ensures.inSetting (ensures_throw fault) s

theorem ensuresIn_lift {e : Except Fault α} (h : ∀ a, e = .ok a → Q a) :
    EnsuresIn s (liftM e : Writer α) Q :=
  Ensures.inSetting (ensures_lift h) s

theorem ensuresIn_read : EnsuresIn s (read : Writer Setting) (· = s) := by
  intro l a l' hrun
  cases hrun
  rfl

theorem EnsuresIn.bind {w : Writer α} {f : α → Writer β} (hw : EnsuresIn s w Q)
    (hf : ∀ a, Q a → EnsuresIn s (f a) R) : EnsuresIn s (w >>= f) R := by
  intro l b l' hrun
  rw [ReaderT.run_bind, StateT.run_bind] at hrun
  obtain ⟨⟨a, m⟩, hfirst, hrest⟩ := exists_of_bind_eq_ok hrun
  exact hf a (hw l a m hfirst) m b l' hrest

/-- Whatever comes before. -/
theorem EnsuresIn.after {w : Writer α} {f : α → Writer β} (hf : ∀ a, EnsuresIn s (f a) R) :
    EnsuresIn s (w >>= f) R :=
  EnsuresIn.bind (Q := fun _ => True) (fun _ _ _ _ => trivial) fun a _ => hf a

theorem EnsuresIn.map {w : Writer α} {f : α → β} (hw : EnsuresIn s w Q)
    (hf : ∀ a, Q a → R (f a)) : EnsuresIn s (f <$> w) R := by
  rw [map_eq_pure_bind]
  exact hw.bind fun a ha => ensuresIn_pure (hf a ha)

theorem ensuresIn_ite {p : Prop} [Decidable p] {w w' : Writer α} (h : p → EnsuresIn s w Q)
    (h' : ¬p → EnsuresIn s w' Q) : EnsuresIn s (if p then w else w') Q := by
  split
  · exact h ‹_›
  · exact h' ‹_›

theorem ensuresIn_mapM {γ : Type} {xs : List γ} {f : γ → Writer α}
    (h : ∀ x ∈ xs, EnsuresIn s (f x) Q) : EnsuresIn s (xs.mapM f) fun as => ∀ a ∈ as, Q a := by
  induction xs with
  | nil => exact ensuresIn_pure (List.forall_mem_nil _)
  | cons x xs ih =>
    rw [List.forall_mem_cons] at h
    rw [List.mapM_cons]
    exact h.1.bind fun a ha => (ih h.2).bind fun as has =>
      ensuresIn_pure (List.forall_mem_cons.mpr ⟨ha, has⟩)

theorem EnsuresIn.withLocals {w : Writer α} (hw : EnsuresIn s w Q) (start : Locals → Locals) :
    EnsuresIn s (withLocals start w) Q := by
  intro l a l' hrun
  have hscope : ((w.run s).run (start l)).bind (fun p => .ok (p.1, l)) = .ok (a, l') := hrun
  obtain ⟨⟨b, m⟩, hinner, hend⟩ := exists_of_bind_eq_ok hscope
  cases hend
  exact hw (start l) b m hinner

theorem EnsuresIn.withBraces {braces : Bool} {w : Writer α}
    (hw : EnsuresIn { s with braceBlocks := braces } w Q) : EnsuresIn s (withBraces braces w) Q :=
  hw

theorem EnsuresIn.built {w : Writer Draft} {Q : Draft → Prop} {R : Text → Prop}
    (hw : EnsuresIn s w Q) (h : ∀ d, Q d → ∀ t, d.build = .ok t → R t) :
    EnsuresIn s (built w) R :=
  hw.bind fun d hd => ensuresIn_lift fun t ht => h d hd t ht

end InSetting

/-! ## Drafts -/

/-- What is joined is the text of a draft. -/
theorem Ensures.built {w : Writer Draft} {Q : Draft → Prop} {R : Text → Prop}
    (hw : Ensures inv w Q) (h : ∀ d, Q d → ∀ t, d.build = .ok t → R t) :
    Ensures inv (built w) R :=
  hw.bind fun d hd => ensures_lift fun t ht => h d hd t ht

/-! ## What a writer needs -/

/-- The writer succeeds only if `p`. -/
def Needs (w : Writer α) (p : Prop) : Prop := Ensures (fun _ => True) w fun _ => p

section Needs

variable {w : Writer α} {f : α → Writer β} {e : Except Fault α} {p q : Prop}

theorem needs_of (hp : p) : Needs w p := fun _ _ _ _ _ _ => ⟨trivial, hp⟩

theorem Needs.and (hp : Needs w p) (hq : Needs w q) : Needs w (p ∧ q) :=
  fun s l a l' hl hrun => ⟨trivial, (hp s l a l' hl hrun).2, (hq s l a l' hl hrun).2⟩

/-- Whatever comes next. -/
theorem Needs.bind (hw : Needs w p) : Needs (w >>= f) p := Ensures.bind hw fun _ => needs_of

theorem needs_after (hf : ∀ a, Needs (f a) p) : Needs (w >>= f) p := ensures_after hf

/-- After a question of which the answer is known. -/
theorem needs_after_ok {a : α} (he : e = .ok a) (hf : Needs (f a) p) :
    Needs (liftM e >>= f) p := by
  subst he
  exact hf

theorem Needs.map {g : α → β} (hw : Needs w p) : Needs (g <$> w) p := by
  rw [map_eq_pure_bind]
  exact hw.bind

/-- A literal needs to have no more digits than are written. -/
theorem needs_integer {n : Int} :
    Needs (liftM (Rules.integer (.scalar (.int n)))) (Decimal.isLong n = false) := by
  refine ensures_lift fun d hd => ?_
  rw [Rules.integer, Value.shown_int] at hd
  split at hd
  · cases hd
  · exact Bool.eq_false_iff.mpr ‹_›

end Needs

end Writer

/-! ## Fields and elements -/

namespace FieldRendition

variable {α : Type} {inv : Locals → Prop} {r : FieldRendition}

theorem ensures_ifPresent {w : Writer (List α)} {Q : List α → Prop} (hnil : Q [])
    (hw : r.value.isNull = false → Writer.Ensures inv w Q) :
    Writer.Ensures inv (r.ifPresent w) Q :=
  Writer.ensures_ite (fun _ => Writer.ensures_pure hnil) fun h => hw (Bool.eq_false_iff.mpr h)

theorem ensuresIn_ifPresent {s : Setting} {w : Writer (List α)} {Q : List α → Prop} (hnil : Q [])
    (hw : r.value.isNull = false → Writer.EnsuresIn s w Q) :
    Writer.EnsuresIn s (r.ifPresent w) Q :=
  Writer.ensuresIn_ite (fun _ => Writer.ensuresIn_pure hnil) fun h =>
    hw (Bool.eq_false_iff.mpr h)

theorem ensures_sequence :
    Writer.Ensures inv r.sequence fun items => items = r.elements :=
  Writer.ensures_ite (fun _ => Writer.ensures_pure rfl) fun _ => Writer.ensures_throw _

theorem ensuresIn_sequence {s : Setting} {Q : Rendition → Prop} (h : ∀ e ∈ r.elements, Q e) :
    Writer.EnsuresIn s r.sequence fun items => ∀ e ∈ items, Q e :=
  Writer.ensuresIn_ite (fun _ => Writer.ensuresIn_pure h) fun _ => Writer.ensuresIn_throw _

end FieldRendition

theorem Rules.ensures_require {inv : Locals → Prop} (self : Value) (f : Field) :
    Writer.Ensures inv (require self f) fun _ => self.kind?.any (·.has f) = true :=
  Writer.ensures_ite (fun h => Writer.ensures_pure h) fun _ => Writer.ensures_throw _

end TerseRuby
