import TerseRuby.Proofs.Locals.Declared

/-!
# Writers and the variables they enter

A writer is given the local variables known so far and returns them with more.  `Writer.Enters`
says all that matters about this: which names it adds, and that nothing else depends on the
variables but the answers to questions about certain names.  Two runs that start with variables
about which these questions have the same answers fail alike, or return the same and add the same
names in the same order.

The lemmas here say this of the operations that writers are built from.  The names of a writer that
does one thing after another are those of its parts, and a writer in a scope of its own has none.
-/

set_option autoImplicit false

namespace TerseRuby

/-- Variables that no question about a name with the property `asked` tells apart. -/
def Locals.Alike (s : Setting) (asked : Value → Prop) (l l' : Locals) : Prop :=
  ∀ name, asked name → l.has s name = l'.has s name

namespace Locals

variable {s : Setting} {asked : Value → Prop} {l l' : Locals}

theorem Alike.append (h : Alike s asked l l') (names : Locals) :
    Alike s asked (names ++ l) (names ++ l') := by
  intro name hname
  rw [has, has, List.any_append, List.any_append]
  exact congrArg _ (h name hname)

theorem Alike.refl (s : Setting) (asked : Value → Prop) (l : Locals) : Alike s asked l l :=
  fun _ _ => rfl

end Locals

namespace Writer

variable {α β : Type} {asked : Value → Prop} {names more : List Value}

/-- The outcomes of two runs that started with the variables `l` and `l'`: the same failure, or the
same result and the same names added to both, these being the given ones. -/
def Entered (names : List Value) (l l' : Locals) (left right : Except Fault (α × Locals)) : Prop :=
  (∃ fault, left = .error fault ∧ right = .error fault) ∨
    ∃ a added, left = .ok (a, added ++ l) ∧ right = .ok (a, added ++ l') ∧
      ∀ n, n ∈ added ↔ n ∈ names

/-- The writer enters the given names if it does not fail, and asks only about names with the
property `asked`. -/
def Enters (asked : Value → Prop) (w : Writer α) (names : List Value) : Prop :=
  ∀ s l l', Locals.Alike s asked l l' → Entered names l l' ((w.run s).run l) ((w.run s).run l')

/-- What a run has added to the variables. -/
theorem Enters.added {w : Writer α} (hw : Enters asked w names) {s : Setting} {l l' : Locals}
    {a : α} (h : (w.run s).run l = .ok (a, l')) :
    ∃ added, l' = added ++ l ∧ ∀ n, n ∈ added ↔ n ∈ names := by
  obtain ⟨fault, hfailed, _⟩ | ⟨_, added, hwritten, _, hadded⟩ :=
    hw s l l (Locals.Alike.refl s asked l)
  · rw [h] at hfailed
    cases hfailed
  · rw [h] at hwritten
    cases hwritten
    exact ⟨added, rfl, hadded⟩

/-- A run with other variables that are alike returns the same. -/
theorem Enters.run_of_alike {w : Writer α} (hw : Enters asked w names) {s : Setting}
    {l l' m : Locals} (hl : Locals.Alike s asked l l') {a : α}
    (h : (w.run s).run l = .ok (a, m)) : ∃ m', (w.run s).run l' = .ok (a, m') := by
  obtain ⟨fault, hfailed, _⟩ | ⟨b, added, hwritten, hother, _⟩ := hw s l l' hl
  · rw [h] at hfailed
    cases hfailed
  · rw [h] at hwritten
    cases hwritten
    exact ⟨added ++ l', hother⟩

theorem Enters.congr {w : Writer α} (hw : Enters asked w names)
    (h : ∀ n, n ∈ names ↔ n ∈ more) : Enters asked w more := by
  intro s l l' hl
  obtain hfailed | ⟨a, added, hleft, hright, hadded⟩ := hw s l l' hl
  · exact .inl hfailed
  · exact .inr ⟨a, added, hleft, hright, fun n => (hadded n).trans (h n)⟩

theorem enters_pure (a : α) : Enters asked (pure a) [] :=
  fun _ _ _ _ => .inr ⟨a, [], rfl, rfl, fun _ => Iff.rfl⟩

theorem enters_throw (fault : Fault) : Enters asked (throw fault : Writer α) names :=
  fun _ _ _ _ => .inl ⟨fault, rfl, rfl⟩

theorem Enters.bind {w : Writer α} {f : α → Writer β} (hw : Enters asked w names)
    (hf : ∀ a, Enters asked (f a) more) : Enters asked (w >>= f) (names ++ more) := by
  intro s l l' hl
  rw [ReaderT.run_bind, StateT.run_bind, StateT.run_bind]
  obtain ⟨fault, hleft, hright⟩ | ⟨a, added, hleft, hright, hadded⟩ := hw s l l' hl
  · rw [hleft, hright]
    exact .inl ⟨fault, rfl, rfl⟩
  · rw [hleft, hright]
    -- the second part starts with variables that are alike again, with the same names in front
    obtain hfailed | ⟨b, added', hleft', hright', hadded'⟩ := hf a s _ _ (hl.append added)
    · exact .inl hfailed
    · refine .inr ⟨b, added' ++ added, ?_, ?_, fun n => ?_⟩
      · rw [List.append_assoc]
        exact hleft'
      · rw [List.append_assoc]
        exact hright'
      · rw [List.mem_append, List.mem_append, hadded n, hadded' n]
        exact or_comm

/-- What comes after enters nothing. -/
theorem Enters.bind_nil {w : Writer α} {f : α → Writer β} (hw : Enters asked w names)
    (hf : ∀ a, Enters asked (f a) []) : Enters asked (w >>= f) names := by
  simpa using hw.bind hf

/-- What comes before enters nothing. -/
theorem Enters.nil_bind {w : Writer α} {f : α → Writer β} (hw : Enters asked w [])
    (hf : ∀ a, Enters asked (f a) more) : Enters asked (w >>= f) more :=
  hw.bind hf

/-- What comes after always fails, so it does not matter what is entered. -/
theorem Enters.bind_throw {w : Writer α} {f : α → Writer β} (hw : Enters asked w names)
    (fault : Fault) (hf : ∀ a, f a = throw fault) : Enters asked (w >>= f) more := by
  obtain rfl : f = fun _ => throw fault := funext hf
  intro s l l' hl
  rw [ReaderT.run_bind, StateT.run_bind, StateT.run_bind]
  obtain ⟨fault, hleft, hright⟩ | ⟨a, added, hleft, hright, _⟩ := hw s l l' hl
  · rw [hleft, hright]
    exact .inl ⟨fault, rfl, rfl⟩
  · rw [hleft, hright]
    exact .inl ⟨_, rfl, rfl⟩

theorem Enters.map {w : Writer α} (hw : Enters asked w names) (f : α → β) :
    Enters asked (f <$> w) names := by
  rw [map_eq_pure_bind]
  exact hw.bind_nil fun a => enters_pure (f a)

theorem enters_ite {p : Prop} [Decidable p] {w w' : Writer α} (h : p → Enters asked w names)
    (h' : ¬p → Enters asked w' names) : Enters asked (if p then w else w') names := by
  split
  · exact h ‹_›
  · exact h' ‹_›

theorem enters_mapM {γ : Type} {xs : List γ} {f : γ → Writer α} {names : γ → List Value}
    (h : ∀ x ∈ xs, Enters asked (f x) (names x)) :
    Enters asked (xs.mapM f) (xs.flatMap names) := by
  induction xs with
  | nil => exact enters_pure []
  | cons x xs ih =>
    rw [List.forall_mem_cons] at h
    rw [List.mapM_cons, List.flatMap_cons]
    exact h.1.bind fun _ => (ih h.2).bind_nil fun _ => enters_pure _

/-! ## What a writer looks at -/

theorem enters_lift (e : Except Fault α) : Enters asked (liftM e : Writer α) [] := by
  cases e with
  | error fault => exact fun _ _ _ _ => .inl ⟨fault, rfl, rfl⟩
  | ok a => exact enters_pure a

theorem enters_lift_bind {e : Except Fault α} {f : α → Writer β}
    (h : ∀ a, e = .ok a → Enters asked (f a) names) :
    Enters asked ((liftM e : Writer α) >>= f) names := by
  cases e with
  | error fault => exact fun _ _ _ _ => .inl ⟨fault, rfl, rfl⟩
  | ok a => exact h a rfl

theorem enters_read_bind {f : Setting → Writer β} (h : ∀ s, Enters asked (f s) names) :
    Enters asked ((read : Writer Setting) >>= f) names :=
  fun s l l' hl => h s s l l' hl

/-- A question about the variables that has the same answer for all that are alike. -/
theorem enters_query_bind {question : Setting → Locals → Except Fault α} {f : α → Writer β}
    (hquestion : ∀ s l l', Locals.Alike s asked l l' → question s l = question s l')
    (h : ∀ s l a, question s l = .ok a → Enters asked (f a) names) :
    Enters asked (do
      let s ← (read : Writer Setting)
      let l ← (get : Writer Locals)
      let a ← (liftM (question s l) : Writer α)
      f a) names := by
  intro s l l' hl
  have hleft := enters_lift_bind (e := question s l) (h s l) s l l' hl
  have hright : question s l' = question s l := (hquestion s l l' hl).symm
  change Entered _ l l' ((((liftM (question s l) : Writer α) >>= f).run s).run l)
    ((((liftM (question s l') : Writer α) >>= f).run s).run l')
  rw [hright]
  exact hleft

/-! ## Scopes -/

theorem enters_declare (name : Value) : Enters asked (declare name) [name] := by
  refine (enters_lift name.checkKey).nil_bind fun _ => ?_
  exact fun s l l' _ => .inr ⟨(), [name], rfl, rfl, fun _ => Iff.rfl⟩

theorem Enters.withLocals {w : Writer α} {start : Locals → Locals}
    (hstart : ∀ s l l', Locals.Alike s asked l l' → Locals.Alike s asked (start l) (start l'))
    (hw : Enters asked w names) : Enters asked (withLocals start w) [] := by
  intro s l l' hl
  change Entered [] l l' (((w.run s).run (start l)).bind fun p => .ok (p.1, l))
    (((w.run s).run (start l')).bind fun p => .ok (p.1, l'))
  obtain ⟨fault, hleft, hright⟩ | ⟨a, added, hleft, hright, _⟩ := hw s _ _ (hstart s l l' hl)
  · rw [hleft, hright]
    exact .inl ⟨fault, rfl, rfl⟩
  · rw [hleft, hright]
    exact .inr ⟨a, [], rfl, rfl, fun _ => Iff.rfl⟩

/-- A definition starts without variables, whatever is known around it. -/
theorem Enters.inNewScope {w : Writer α} (hw : Enters asked w names) :
    Enters asked (inNewScope w) [] :=
  hw.withLocals fun s _ _ _ => Locals.Alike.refl s asked []

theorem Enters.inInnerScope {w : Writer α} (hw : Enters asked w names) :
    Enters asked (inInnerScope w) [] :=
  hw.withLocals fun _ _ _ hl => hl

theorem Enters.withBraces {w : Writer α} (hw : Enters asked w names) (braces : Bool) :
    Enters asked (withBraces braces w) names :=
  fun s l l' hl => hw { s with braceBlocks := braces } l l' hl

theorem Enters.built {w : Writer Draft} (hw : Enters asked w names) :
    Enters asked (built w) names :=
  hw.bind_nil fun d => enters_lift d.build

end Writer
end TerseRuby
