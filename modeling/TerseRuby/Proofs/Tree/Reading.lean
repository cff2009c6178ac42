import TerseRuby.Proofs.Tree.Shape
import TerseRuby.Proofs.Tree.Text

/-!
# What is read from data

Reading looks at an object in one of three ways, by what the object names: nothing, a location, or a
kind of node.  `Value.named_of_ofField_object` tells the three apart, and `Value.assemble_eq_ok_iff`
says which nodes come of the third.  A node is read exactly if each field of its kind can be filled,
with what was given for it or with its default (`Value.Fills`).
-/

set_option autoImplicit false

namespace TerseRuby

open CodedText (literal)

variable {σ : Type} [DecidableEq σ] [CodedText σ]

theorem Kind.name_of_ofName? {s : σ} {kind : Kind} (h : ofName? s = some kind) :
    s = literal kind.name := by
  have hname := List.find?_some h
  exact (eq_of_beq hname).symm

namespace Value

omit [DecidableEq σ] [CodedText σ] in
theorem str_inj {s t : σ} (h : Json.str s = Json.str t) : s = t :=
  Scalar.str.inj (Json.scalar.inj h)

/-! ## What is read from an object -/

/-- Only the name of a kind is resolved to it. -/
theorem name_of_resolveKind {d : Json σ} {kind : Kind} (h : resolveKind d = .ok kind) :
    d = .str (literal kind.name) := by
  unfold resolveKind at h
  split at h
  · rename_i s
    split at h
    · rename_i found hfound
      cases h
      rw [Kind.name_of_ofName? hfound]
      rfl
    · cases h
  · cases h
  · cases h

/-- What an object is read as, with what it names. -/
theorem named_of_ofField_object {entries : List (σ × Json σ)} {v : Value σ}
    (h : ofField (.object entries) = .ok v) :
    (((entries.lookup kindKey).getD .null).isNull = true ∧ v = .table entries) ∨
      (entries.lookup kindKey = some (.str (literal Location.kindName)) ∧
        ∃ l, Location.decode entries = .ok l ∧ v = .location l) ∨
      ∃ kind : Kind, entries.lookup kindKey = some (.str (literal kind.name)) ∧
        assemble kind (ofEntries entries) = .ok v := by
  rw [ofField] at h
  split at h
  · rename_i hname
    cases h
    exact .inl ⟨by rw [hname]; rfl, rfl⟩
  rename_i name hname
  split at h
  · rename_i hnull
    cases h
    exact .inl ⟨by rw [hname, Option.getD_some, hnull], rfl⟩
  split at h
  · rename_i htext
    have hlocation : name = .str (literal Location.kindName) := by
      rcases name with (_ | _ | _ | _ | s) | _ | _ <;> simp_all [Json.text?, Json.str]
    obtain ⟨l, hl, hv⟩ := exists_of_bind_eq_ok h
    cases hv
    exact .inr (.inl ⟨by rw [hname, hlocation], l, hl, rfl⟩)
  · obtain ⟨kind, hkind, hv⟩ := exists_of_bind_eq_ok h
    exact .inr (.inr ⟨kind, by rw [hname, name_of_resolveKind hkind], hv⟩)

/-- An object that names nothing is kept as it is. -/
theorem ofField_nameless {entries : List (σ × Json σ)}
    (h : ((entries.lookup kindKey).getD .null).isNull = true) :
    ofField (.object entries) = .ok (.table entries) :=
  ofField_toJson (.table entries h)

/-- A tree is read at the top if a node is read in a field. -/
theorem ofJson_eq_ok_iff {d : Json σ} {n : Value σ} :
    ofJson d = .ok n ↔ ofField d = .ok n ∧ n.isNode = true := by
  constructor
  · intro h
    refine ⟨?_, (isRegular_of_ofJson h).2⟩
    obtain _ | _ | entries := d
    · cases h
    · cases h
    rw [ofJson] at h
    split at h
    · cases h
    obtain ⟨kind, hkind, h⟩ := exists_of_bind_eq_ok h
    have hname : entries.lookup kindKey = some (.str (literal kind.name)) := by
      have hget := name_of_resolveKind hkind
      rcases hlookup : entries.lookup kindKey with _ | name
      · rw [hlookup] at hget
        cases hget
      · rw [hlookup, Option.getD_some] at hget
        rw [hget]
    rw [ofField_named hname, h]
  · rintro ⟨h, hnode⟩
    obtain s | items | entries := d
    · cases h
      cases hnode
    · obtain ⟨values, rfl, -⟩ := exists_of_ofField_array h
      cases hnode
    · obtain ⟨-, rfl⟩ | ⟨-, l, -, rfl⟩ | ⟨kind, hname, hread⟩ := named_of_ofField_object h
      · cases hnode
      · cases hnode
      · rw [ofJson_named hname, hread]

/-! ## What a node has in its fields -/

/-- Every field that is given is collected. -/
theorem mem_collectFields {read : List (σ × Except Fault (Value σ))}
    {fields : List (Field × Default)} {given : List (Field × Value σ)}
    (h : collectFields read fields = .ok given) {f : Field} (hf : f ∈ fields.map Prod.fst)
    {result : Except Fault (Value σ)} (hread : read.lookup (literal f.spelling) = some result) :
    ∃ v, result = .ok v ∧ (f, v) ∈ given := by
  induction fields generalizing given with
  | nil => cases hf
  | cons entry rest ih =>
    rw [collectFields] at h
    split at h
    · rename_i hnone
      rcases List.mem_cons.mp hf with rfl | hf
      · rw [hread] at hnone
        cases hnone
      · exact ih h hf
    · rename_i found hfound
      obtain ⟨v, hv, h⟩ := exists_of_bind_eq_ok h
      obtain ⟨others, hothers, h⟩ := exists_of_bind_eq_ok h
      cases h
      rcases List.mem_cons.mp hf with rfl | hf
      · rw [hread, Option.some_inj] at hfound
        exact ⟨v, by rw [hfound, hv], List.mem_cons_self⟩
      · obtain ⟨w, hw, hmem⟩ := ih hothers hf
        exact ⟨w, hw, List.mem_cons_of_mem _ hmem⟩

/-- Fields are collected if none of those that are given failed. -/
theorem exists_collectFields {read : List (σ × Except Fault (Value σ))}
    {fields : List (Field × Default)}
    (h : ∀ f ∈ fields.map Prod.fst, ∀ result, read.lookup (literal f.spelling) = some result →
      ∃ v, result = .ok v) : ∃ given, collectFields read fields = .ok given := by
  induction fields with
  | nil => exact ⟨[], rfl⟩
  | cons entry rest ih =>
    rw [List.map_cons, List.forall_mem_cons] at h
    obtain ⟨others, hothers⟩ := ih h.2
    rw [collectFields]
    rcases hread : read.lookup (literal entry.1.spelling) with _ | result
    · exact ⟨others, hothers⟩
    · obtain ⟨v, rfl⟩ := h.1 result hread
      exact ⟨(entry.1, v) :: others, by simp only [hothers]; rfl⟩

/-- What a node of some kind has in a field: what was read there, and where nothing was given and
nothing has to be, the default. -/
def Fills (kind : Kind) (f : Field) : Option (Except Fault (Value σ)) → Value σ → Prop
  | some result, v => result = .ok v
  | none, v => v = kind.defaultOf f ∧ (f, .required) ∉ kind.fields

theorem has_iff_mem {kind : Kind} {f : Field} :
    kind.has f = true ↔ f ∈ kind.fields.map Prod.fst := by
  simp [Kind.has]

/-- What is collected for a field is what was read there. -/
theorem lookup_collectFields {read : List (σ × Except Fault (Value σ))}
    {fields : List (Field × Default)} {given : List (Field × Value σ)}
    (h : collectFields read fields = .ok given) {f : Field} (hf : f ∈ fields.map Prod.fst) :
    read.lookup (literal f.spelling) = (given.lookup f).map .ok := by
  rcases hlookup : given.lookup f with _ | v
  · rcases hread : read.lookup (literal f.spelling) with _ | result
    · rfl
    · obtain ⟨v, -, hmem⟩ := mem_collectFields h hf hread
      exact absurd hmem fun hmem => by
        have hne := List.lookup_eq_none_iff.mp hlookup (f, v) hmem
        simp at hne
  · exact (mem_of_collectFields h (mem_of_lookup hlookup)).2

omit [DecidableEq σ] [CodedText σ] in
theorem missingFields_eq_nil_iff {kind : Kind} {given : List (Field × Value σ)} :
    missingFields kind given = [] ↔
      ∀ f, (f, Default.required) ∈ kind.fields → given.lookup f ≠ none := by
  rw [missingFields, List.filterMap_eq_nil_iff]
  constructor
  · intro h f hf hnone
    have hmissing := h (f, .required) hf
    simp [hnone] at hmissing
  · rintro h ⟨f, d⟩ hentry
    rw [ite_eq_right_iff]
    intro hmissing
    obtain ⟨hrequired, hnone⟩ := Bool.and_eq_true_iff.mp hmissing
    rw [eq_of_beq hrequired] at hentry
    exact absurd (Option.isNone_iff_eq_none.mp hnone) (h f hentry)

/-- **A node is assembled exactly if each of its fields can be filled.** -/
theorem assemble_eq_ok_iff {kind : Kind} {read : List (σ × Except Fault (Value σ))}
    {field : Field → Value σ} :
    assemble kind read = .ok (.node kind field) ↔
      (∀ f, kind.has f = true → Fills kind f (read.lookup (literal f.spelling)) (field f)) ∧
        ∀ f, kind.has f = false → field f = .null := by
  constructor
  · intro h
    obtain ⟨_, hnode, absent, -⟩ := assemble_eq_ok h
    cases hnode
    refine ⟨fun f hf => ?_, absent⟩
    obtain ⟨given, hgiven, h⟩ := exists_of_bind_eq_ok h
    split at h
    · rename_i hmissing
      cases h
      rw [lookup_collectFields hgiven (has_iff_mem.mp hf)]
      rcases hlookup : given.lookup f with _ | v
      · refine ⟨by simp [hlookup], fun hrequired => ?_⟩
        exact missingFields_eq_nil_iff.mp hmissing f hrequired hlookup
      · simp [Fills, hlookup]
    · cases h
  · rintro ⟨hfills, absent⟩
    have hresult (f : Field) (hf : f ∈ kind.fields.map Prod.fst) (result : Except Fault (Value σ))
        (hread : read.lookup (literal f.spelling) = some result) : ∃ v, result = .ok v := by
      have hfill := hfills f (has_iff_mem.mpr hf)
      rw [hread] at hfill
      exact ⟨field f, hfill⟩
    obtain ⟨given, hgiven⟩ := exists_collectFields hresult
    -- for each field of the kind, what was collected fills it
    have hfill (f : Field) (hf : kind.has f = true) :
        Fills kind f ((given.lookup f).map .ok) (field f) := by
      rw [← lookup_collectFields hgiven (has_iff_mem.mp hf)]
      exact hfills f hf
    have hmissing : missingFields kind given = [] := by
      refine missingFields_eq_nil_iff.mpr fun f hrequired hnone => ?_
      have hdefault := hfill f (Kind.has_of_mem hrequired)
      rw [hnone] at hdefault
      exact hdefault.2 hrequired
    have hfield : (fun f => (given.lookup f).getD (kind.defaultOf f)) = field := by
      funext f
      rcases hhas : kind.has f with _ | _
      · rcases hlookup : given.lookup f with _ | v
        · rw [absent f hhas]
          exact Kind.defaultOf_of_not_has hhas
        · have hmem := (mem_of_collectFields hgiven (mem_of_lookup hlookup)).1
          rw [has_iff_mem.mpr hmem] at hhas
          cases hhas
      · have hdefault := hfill f hhas
        rcases hlookup : given.lookup f with _ | v
        · rw [hlookup] at hdefault
          exact hdefault.1.symm
        · rw [hlookup] at hdefault
          exact Except.ok.inj hdefault
    rw [assemble, hgiven, ok_bind, hmissing]
    exact congrArg (fun field => Except.ok (Value.node kind field)) hfield

end Value
end TerseRuby
