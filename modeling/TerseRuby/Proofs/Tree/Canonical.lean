import TerseRuby.Proofs.Json.Canonical
import TerseRuby.Proofs.Tree.Reading
import Mathlib.Logic.Relation

/-!
# The text of a tree is canonical

The text of a tree may serve as its key in a cache.  That takes two things.  Data that differs only
in what reading does not look at has to lead to one text, and different trees have to have different
texts.

* `Value.Redundant`: an entry of an object that is read as a node or as a location, and that makes
  no difference there.  Nothing is looked up under its key, or its value is read as the one that
  would be taken if it were not given.
* `Value.Change`: a single change to data, at any depth.  An object lists its entries in another
  order, or one that is read as a node or a location is given a redundant entry.
* `Value.canonical?`: the data in order of what is read from data.  No change matters to it
  (`Change.canonical?_eq`), and it is all that the text depends on.
* `Value.alike_of_sorted_eq`: the data in order determines the tree.

Two things are left out of account in comparing trees by their texts.  A pair of surrogates is
written like the character that it stands for, so a text that holds one does not tell what it was;
and what is not a number is written like any other value, though it is not equal to itself.
-/

set_option autoImplicit false

namespace TerseRuby

theorem Location.mem_partNames_of_required {key : String} (h : key ∈ requiredEntries) :
    key ∈ partNames := by
  revert key
  decide

namespace Value

open CodedText (literal literal_injective)

variable {σ : Type} [DecidableEq σ] [CodedText σ]

/-! ## The data in order of what is read -/

/-- The data in order of what is read from data, if something is. -/
def canonical? (d : Json σ) : Option (Json σ) :=
  match ofField d with
  | .ok v => some v.toJson.sorted
  | .error _ => none

theorem canonical?_of_eq_ok {d : Json σ} {v : Value σ} (h : ofField d = .ok v) :
    canonical? d = some v.toJson.sorted := by
  rw [canonical?, h]

theorem exists_of_canonical? {d c : Json σ} (h : canonical? d = some c) :
    ∃ v, ofField d = .ok v ∧ v.toJson.sorted = c := by
  rw [canonical?] at h
  split at h
  · rename_i v hv
    exact ⟨v, hv, Option.some_inj.mp h⟩
  · cases h

/-- To compare what is read from two documents, it is enough to find, for what is read from either,
something with the same data in order that is read from the other. -/
theorem canonical?_eq {d e : Json σ}
    (hd : ∀ v, ofField d = .ok v → canonical? e = some v.toJson.sorted)
    (he : ∀ v, ofField e = .ok v → canonical? d = some v.toJson.sorted) :
    canonical? d = canonical? e := by
  refine Option.ext fun c => ⟨fun h => ?_, fun h => ?_⟩
  · obtain ⟨v, hv, rfl⟩ := exists_of_canonical? h
    exact hd v hv
  · obtain ⟨v, hv, rfl⟩ := exists_of_canonical? h
    exact he v hv

/-! ### Lists -/

theorem forall₂_of_ofItems {items : List (Json σ)} {values : List (Value σ)}
    (h : ofItems items = .ok values) :
    List.Forall₂ (fun d v => ofField d = .ok v) items values := by
  induction items generalizing values with
  | nil =>
    cases h
    exact .nil
  | cons d rest ih =>
    rw [ofItems] at h
    obtain ⟨v, hv, h⟩ := exists_of_bind_eq_ok h
    obtain ⟨others, hothers, h⟩ := exists_of_bind_eq_ok h
    cases h
    exact .cons hv (ih hothers)

theorem exists_ofItems {xs ys : List (Json σ)}
    (h : List.Forall₂ (fun d e => canonical? d = canonical? e) xs ys) {values : List (Value σ)}
    (hvalues : ofItems xs = .ok values) :
    ∃ others, ofItems ys = .ok others ∧
      others.map (fun w => w.toJson.sorted) = values.map fun v => v.toJson.sorted := by
  induction h generalizing values with
  | nil =>
    cases hvalues
    exact ⟨[], rfl, rfl⟩
  | cons hd _ ih =>
    obtain _ | ⟨hv, hrest⟩ := forall₂_of_ofItems hvalues
    obtain ⟨others, hothers, hsame⟩ := ih (ofItems_eq_ok hrest)
    obtain ⟨w, hw, hsorted⟩ := exists_of_canonical? (hd.symm.trans (canonical?_of_eq_ok hv))
    refine ⟨w :: others, by rw [ofItems, hw, hothers]; rfl, ?_⟩
    rw [List.map_cons, List.map_cons, hsorted, hsame]

theorem canonical?_array_le {xs ys : List (Json σ)}
    (h : List.Forall₂ (fun d e => canonical? d = canonical? e) xs ys) {v : Value σ}
    (hv : ofField (.array xs) = .ok v) : canonical? (.array ys) = some v.toJson.sorted := by
  rw [ofField] at hv
  obtain ⟨values, hvalues, hseq⟩ := exists_of_bind_eq_ok hv
  cases hseq
  obtain ⟨others, hothers, hsame⟩ := exists_ofItems h hvalues
  have hread : ofField (.array ys) = .ok (.seq others) := by
    rw [ofField, hothers]
    rfl
  rw [canonical?_of_eq_ok hread, toJson, toJson, Json.sorted_array, Json.sorted_array,
    toItems_eq_map, toItems_eq_map, List.map_map, List.map_map]
  exact congrArg (fun items => some (Json.array items)) hsame

/-- A list is read item by item. -/
theorem canonical?_array {xs ys : List (Json σ)}
    (h : List.Forall₂ (fun d e => canonical? d = canonical? e) xs ys) :
    canonical? (.array xs) = canonical? (.array ys) :=
  canonical?_eq (fun _ => canonical?_array_le h)
    fun _ => canonical?_array_le (h.flip.imp fun _ _ hde => Eq.symm hde)

/-! ### Nodes -/

/-- What a node has in a field, from what is given for it. -/
def slot? (kind : Kind) (f : Field) : Option (Json σ) → Option (Json σ)
  | some d => canonical? d
  | none =>
    if (f, .required) ∈ kind.fields then none else some (kind.defaultOf f).toJson.sorted

theorem slot?_of_fills {kind : Kind} {f : Field} {given : Option (Json σ)} {v : Value σ}
    (h : Fills kind f (given.map ofField) v) : slot? kind f given = some v.toJson.sorted := by
  cases given with
  | some d => exact canonical?_of_eq_ok h
  | none =>
    rw [slot?, if_neg h.2, h.1]

theorem exists_fills_of_slot? {kind : Kind} {f : Field} {given : Option (Json σ)} {c : Json σ}
    (h : slot? kind f given = some c) :
    ∃ v, Fills kind f (given.map ofField) v ∧ v.toJson.sorted = c := by
  cases given with
  | some d => exact exists_of_canonical? h
  | none =>
    rw [slot?] at h
    split at h
    · cases h
    · rename_i hoptional
      exact ⟨_, ⟨rfl, hoptional⟩, Option.some_inj.mp h⟩

omit [DecidableEq σ] in
theorem sorted_node {kind : Kind} {xs ys : Field → Value σ}
    (h : ∀ f, kind.has f = true → (xs f).toJson.sorted = (ys f).toJson.sorted) :
    (toJson (.node kind xs)).sorted = (toJson (.node kind ys)).sorted := by
  rw [toJson, toJson]
  refine Json.sorted_object_congr ?_
  rw [List.map_cons, List.map_cons, List.map_map, List.map_map]
  refine congrArg _ (List.map_congr_left fun entry hentry => ?_)
  exact congrArg (Prod.mk (literal entry.1.spelling)) (h entry.1 (Kind.has_of_mem hentry))

theorem canonical?_node_le {xs ys : List (σ × Json σ)} {kind : Kind}
    (hxs : xs.lookup kindKey = some (.str (literal kind.name)))
    (hys : ys.lookup kindKey = some (.str (literal kind.name)))
    (h : ∀ f, kind.has f = true →
      slot? kind f (xs.lookup (literal f.spelling)) = slot? kind f (ys.lookup (literal f.spelling)))
    {v : Value σ} (hv : ofField (.object xs) = .ok v) :
    canonical? (.object ys) = some v.toJson.sorted := by
  rw [ofField_named hxs] at hv
  obtain ⟨field, rfl, -⟩ := assemble_eq_ok hv
  obtain ⟨hfills, -⟩ := assemble_eq_ok_iff.mp hv
  have hother (f : Field) (hf : kind.has f = true) :
      ∃ w, Fills kind f ((ys.lookup (literal f.spelling)).map ofField) w ∧
        w.toJson.sorted = (field f).toJson.sorted := by
    have hfill := hfills f hf
    rw [lookup_ofEntries] at hfill
    exact exists_fills_of_slot? ((h f hf).symm.trans (slot?_of_fills hfill))
  choose other hfills' hsorted using hother
  let field' (f : Field) : Value σ := if hf : kind.has f = true then other f hf else .null
  have hfield' (f : Field) (hf : kind.has f = true) : field' f = other f hf := dif_pos hf
  have hread : ofField (.object ys) = .ok (.node kind field') := by
    rw [ofField_named hys, assemble_eq_ok_iff]
    refine ⟨fun f hf => ?_, fun f hf => dif_neg (by simp [hf])⟩
    rw [lookup_ofEntries, hfield' f hf]
    exact hfills' f hf
  rw [canonical?_of_eq_ok hread, sorted_node fun f hf => by rw [hfield' f hf, hsorted f hf]]

/-- A node is read field by field. -/
theorem canonical?_node {xs ys : List (σ × Json σ)} {kind : Kind}
    (hxs : xs.lookup kindKey = some (.str (literal kind.name)))
    (hys : ys.lookup kindKey = some (.str (literal kind.name)))
    (h : ∀ f, kind.has f = true →
      slot? kind f (xs.lookup (literal f.spelling)) =
        slot? kind f (ys.lookup (literal f.spelling))) :
    canonical? (.object xs) = canonical? (.object ys) :=
  canonical?_eq (fun _ => canonical?_node_le hxs hys h)
    fun _ => canonical?_node_le hys hxs fun f hf => (h f hf).symm

/-! ### Locations -/

theorem missingEntries_congr {xs ys : List (σ × Json σ)}
    (h : ∀ key ∈ Location.requiredEntries,
      (xs.lookup (literal key)).isNone = (ys.lookup (literal key)).isNone) :
    Location.missingEntries xs = Location.missingEntries ys :=
  List.filter_congr h

theorem sorted_location {xs ys : List (σ × Json σ)}
    (h : ∀ key ∈ Location.partNames,
      ((xs.lookup (literal key)).getD .null).sorted =
        ((ys.lookup (literal key)).getD .null).sorted) :
    (Location.ofEntries xs).toJson.sorted = (Location.ofEntries ys).toJson.sorted := by
  refine Json.sorted_object_congr ?_
  simp only [Location.partNames, List.forall_mem_cons] at h
  obtain ⟨hline, hcolumn, hendLine, hendColumn, hfile, -⟩ := h
  simp only [Location.entries, Location.ofEntries, List.map_cons, hline, hcolumn, hendLine,
    hendColumn, hfile]

theorem canonical?_location_le {xs ys : List (σ × Json σ)}
    (hxs : xs.lookup kindKey = some (.str (literal Location.kindName)))
    (hys : ys.lookup kindKey = some (.str (literal Location.kindName)))
    (hrequired : ∀ key ∈ Location.requiredEntries,
      (xs.lookup (literal key)).isNone = (ys.lookup (literal key)).isNone)
    (h : ∀ key ∈ Location.partNames,
      ((xs.lookup (literal key)).getD .null).sorted =
        ((ys.lookup (literal key)).getD .null).sorted)
    {v : Value σ} (hv : ofField (.object xs) = .ok v) :
    canonical? (.object ys) = some v.toJson.sorted := by
  obtain ⟨hname, -⟩ | ⟨-, l, hl, rfl⟩ | ⟨kind, hname, -⟩ := named_of_ofField_object hv
  · rw [hxs] at hname
    cases hname
  · rw [Location.decode] at hl
    split at hl
    · rename_i hnone
      cases hl
      have hdecode : Location.decode ys = .ok (Location.ofEntries ys) := by
        rw [Location.decode, ← missingEntries_congr hrequired, hnone]
      rw [canonical?_of_eq_ok (ofField_ofLocation hys hdecode), toJson, toJson, sorted_location h]
    · cases hl
  · rw [hxs, Option.some_inj] at hname
    exact absurd (literal_injective (str_inj hname)).symm kind.name_ne_locationName

/-- A location is read part by part. -/
theorem canonical?_location {xs ys : List (σ × Json σ)}
    (hxs : xs.lookup kindKey = some (.str (literal Location.kindName)))
    (hys : ys.lookup kindKey = some (.str (literal Location.kindName)))
    (hrequired : ∀ key ∈ Location.requiredEntries,
      (xs.lookup (literal key)).isNone = (ys.lookup (literal key)).isNone)
    (h : ∀ key ∈ Location.partNames,
      ((xs.lookup (literal key)).getD .null).sorted =
        ((ys.lookup (literal key)).getD .null).sorted) :
    canonical? (.object xs) = canonical? (.object ys) :=
  canonical?_eq (fun _ => canonical?_location_le hxs hys hrequired h)
    fun _ => canonical?_location_le hys hxs (fun key hkey => (hrequired key hkey).symm)
      fun key hkey => (h key hkey).symm

/-! ### Objects of any sort -/

/-- What names a kind or a location is a scalar, so objects that are the same in order name the
same. -/
theorem lookup_str_of_sorted_eq {xs ys : List (σ × Json σ)} {key s : σ}
    (h : (xs.lookup key).map Json.sorted = (ys.lookup key).map Json.sorted)
    (hs : xs.lookup key = some (.str s)) : ys.lookup key = some (.str s) := by
  rw [hs, Option.map_some] at h
  obtain ⟨d, hd, hscalar⟩ := Option.map_eq_some_iff.mp h.symm
  rw [hd, Json.eq_scalar_of_sorted hscalar]
  rfl

theorem canonical?_object_le {xs ys : List (σ × Json σ)} (hxs : (xs.map Prod.fst).Nodup)
    (hys : (ys.map Prod.fst).Nodup) (hsorted : (Json.object xs).sorted = (Json.object ys).sorted)
    (hread : ∀ key, (xs.lookup key).map canonical? = (ys.lookup key).map canonical?) {v : Value σ}
    (hv : ofField (.object xs) = .ok v) : canonical? (.object ys) = some v.toJson.sorted := by
  have hsame := Json.lookup_eq_of_sorted_eq hxs hys hsorted
  have hpart (key : σ) :
      ((xs.lookup key).getD .null).sorted = ((ys.lookup key).getD .null).sorted := by
    have hget := congrArg (fun d => d.getD (Json.null : Json σ).sorted) (hsame key)
    simpa only [Option.getD_map] using hget
  obtain ⟨hnull, rfl⟩ | ⟨hname, -⟩ | ⟨kind, hname, -⟩ := named_of_ofField_object hv
  · have hnull' : ((ys.lookup kindKey).getD .null).isNull = true := by
      rw [← Json.isNull_sorted, ← hpart, Json.isNull_sorted, hnull]
    rw [canonical?_of_eq_ok (ofField_nameless hnull'), toJson, toJson, hsorted]
  · have hname' := lookup_str_of_sorted_eq (hsame kindKey) hname
    refine canonical?_location_le hname hname' (fun key _ => ?_)
      (fun key _ => hpart (literal key)) hv
    have hnone := congrArg Option.isNone (hsame (literal key))
    simpa only [Option.isNone_map] using hnone
  · have hname' := lookup_str_of_sorted_eq (hsame kindKey) hname
    refine canonical?_node_le hname hname' (fun f _ => ?_) hv
    have hslot := hread (literal f.spelling)
    rcases hx : xs.lookup (literal f.spelling) with _ | d <;>
      rcases hy : ys.lookup (literal f.spelling) with _ | e
    · rfl
    · rw [hx, hy] at hslot
      cases hslot
    · rw [hx, hy] at hslot
      cases hslot
    · rw [hx, hy] at hslot
      exact Option.some_inj.mp hslot

/-- Objects that are the same in order are read alike if what they have under each key is. -/
theorem canonical?_object {xs ys : List (σ × Json σ)} (hxs : (xs.map Prod.fst).Nodup)
    (hys : (ys.map Prod.fst).Nodup) (hsorted : (Json.object xs).sorted = (Json.object ys).sorted)
    (hread : ∀ key, (xs.lookup key).map canonical? = (ys.lookup key).map canonical?) :
    canonical? (.object xs) = canonical? (.object ys) :=
  canonical?_eq (fun _ => canonical?_object_le hxs hys hsorted hread)
    fun _ => canonical?_object_le hys hxs hsorted.symm fun key => (hread key).symm

/-! ## Changes that make no difference -/

/-- An entry that makes no difference to an object that names a kind of node, or a location: its key
is none that is looked up there, or its value is the one that is taken where none is given. -/
inductive Redundant : σ → σ × Json σ → Prop where
  /-- The key is that of no field. -/
  | noField (kind : Kind) {key : σ} (d : Json σ) (hkey : key ≠ kindKey)
      (h : ∀ f, kind.has f = true → literal f.spelling ≠ key) :
      Redundant (literal kind.name) (key, d)
  /-- The value is read as the default of a field that has one. -/
  | default (kind : Kind) {f : Field} {d : Json σ} (hf : kind.has f = true)
      (optional : (f, .required) ∉ kind.fields) (h : ofField d = .ok (kind.defaultOf f)) :
      Redundant (literal kind.name) (literal f.spelling, d)
  /-- The key is that of no part of a location. -/
  | noPart {key : σ} (d : Json σ) (hkey : key ≠ kindKey)
      (h : ∀ name ∈ Location.partNames, literal name ≠ key) :
      Redundant (literal Location.kindName) (key, d)
  /-- A part of a location that may be left out is absent. -/
  | absent (name : String) (hname : name ∈ Location.partNames)
      (optional : name ∉ Location.requiredEntries) :
      Redundant (literal Location.kindName) (literal name, .null)

/-- A single change to data. -/
inductive Change : Json σ → Json σ → Prop where
  /-- An object, at any depth, lists its entries in another order. -/
  | reorder {d e : Json σ} (h : d.Reordered e) : Change d e
  /-- An object that is read as a node or as a location is given a redundant entry. -/
  | insert {name : σ} (front back : List (σ × Json σ)) (entry : σ × Json σ)
      (named : (front ++ back).lookup kindKey = some (.str name)) (h : Redundant name entry)
      (fresh : entry.1 ∉ (front ++ back).map Prod.fst) (inside : entry.2.IsUnambiguous) :
      Change (.object (front ++ back)) (.object (front ++ entry :: back))
  /-- An item of a list is changed. -/
  | item (front back : List (Json σ)) {d e : Json σ} (h : Change d e) :
      Change (.array (front ++ d :: back)) (.array (front ++ e :: back))
  /-- What is given for a field of a node is changed. -/
  | field (kind : Kind) (f : Field) (front back : List (σ × Json σ)) {d e : Json σ}
      (named : (front ++ (literal f.spelling, d) :: back).lookup kindKey =
        some (.str (literal kind.name)))
      (hf : kind.has f = true) (h : Change d e) :
      Change (.object (front ++ (literal f.spelling, d) :: back))
        (.object (front ++ (literal f.spelling, e) :: back))

/-- Data that comes about by any number of changes, made or undone. -/
abbrev Varied : Json σ → Json σ → Prop := Relation.EqvGen Change

/-! ### One change -/

/-- An item of a list is replaced by one that is read alike. -/
theorem canonical?_item (front back : List (Json σ)) {d e : Json σ}
    (h : canonical? d = canonical? e) :
    canonical? (.array (front ++ d :: back)) = canonical? (.array (front ++ e :: back)) := by
  refine canonical?_array ?_
  induction front with
  | nil => exact .cons h (List.forall₂_same.mpr fun d _ => rfl)
  | cons first front ih => exact .cons rfl ih

/-- The order of entries does not matter to reading. -/
theorem canonical?_of_reordered {d e : Json σ} (h : d.Reordered e) (hd : d.IsUnambiguous) :
    canonical? d = canonical? e := by
  have hsorted := h.sorted_eq hd
  have he := h.isUnambiguous hd
  induction h with
  | entries perm =>
    rcases hd with _ | _ | ⟨_, distinct, -⟩
    rcases he with _ | _ | ⟨_, distinct', -⟩
    have hlookup := lookup_eq_of_perm distinct perm.symm
    exact canonical?_object distinct distinct' hsorted fun key => by rw [hlookup]
  | item front back hitem ih =>
    rcases hd with _ | ⟨_, inside⟩
    have hd := inside _ (List.mem_append_right _ List.mem_cons_self)
    exact canonical?_item front back (ih hd (hitem.sorted_eq hd) (hitem.isUnambiguous hd))
  | @value front back key d e hvalue ih =>
    rcases hd with _ | _ | ⟨_, distinct, inside⟩
    rcases he with _ | _ | ⟨_, distinct', -⟩
    have hd : d.IsUnambiguous := inside (key, d) (List.mem_append_right _ List.mem_cons_self)
    have hread := ih hd (hvalue.sorted_eq hd) (hvalue.isUnambiguous hd)
    refine canonical?_object distinct distinct' hsorted fun k => ?_
    obtain heq | ⟨-, hold, hnew⟩ := lookup_replaced front back key d e k
    · rw [heq]
    · rw [hold, hnew, Option.map_some, Option.map_some, hread]

/-- A redundant entry does not matter to reading. -/
theorem canonical?_of_redundant {name : σ} {front back : List (σ × Json σ)}
    {entry : σ × Json σ} (named : (front ++ back).lookup kindKey = some (.str name))
    (h : Redundant name entry) (fresh : entry.1 ∉ (front ++ back).map Prod.fst) :
    canonical? (.object (front ++ back)) = canonical? (.object (front ++ entry :: back)) := by
  have hinserted := lookup_inserted fresh
  have hfresh := lookup_fresh fresh
  have hnamed (hkey : entry.1 ≠ kindKey) :
      (front ++ entry :: back).lookup kindKey = some (.str name) := by
    rw [hinserted, if_neg hkey.symm, named]
  cases h with
  | noField kind d hkey hfield =>
    refine canonical?_node named (hnamed hkey) fun f hf => ?_
    rw [hinserted, if_neg (hfield f hf)]
  | @default kind f d hf optional hd =>
    refine canonical?_node named (hnamed (@Field.spelling_ne_kindKey σ _ f)) fun g hg => ?_
    rw [hinserted]
    by_cases hgf : g = f
    · subst hgf
      rw [if_pos rfl, hfresh, slot?, slot?, if_neg optional, canonical?_of_eq_ok hd]
    · rw [if_neg fun heq => hgf (Field.spelling_injective heq)]
  | @noPart key d hkey hpart =>
    refine canonical?_location named (hnamed hkey) (fun k hk => ?_) fun k hk => ?_
    · rw [hinserted, if_neg (hpart k (Location.mem_partNames_of_required hk))]
    · rw [hinserted, if_neg (hpart k hk)]
  | absent name hname optional =>
    refine canonical?_location named (hnamed fun hkey => ?_) (fun k hk => ?_) fun k _ => ?_
    · rw [literal_injective hkey] at hname
      exact absurd hname (by decide)
    · have hne : (literal k : σ) ≠ literal name := fun hkey =>
        optional (literal_injective hkey ▸ hk)
      rw [hinserted, if_neg hne]
    · rw [hinserted]
      by_cases hk : (literal k : σ) = literal name
      · rw [if_pos hk, hk, hfresh]
        rfl
      · rw [if_neg hk]

/-- **No change matters to what is read**, but for the order of entries that are carried along
untouched. -/
theorem Change.canonical?_eq {d e : Json σ} (h : Change d e) (hd : d.IsUnambiguous) :
    canonical? d = canonical? e := by
  induction h with
  | reorder h => exact canonical?_of_reordered h hd
  | insert front back _ named h fresh _ => exact canonical?_of_redundant named h fresh
  | item front back _ ih =>
    rcases hd with _ | ⟨_, inside⟩
    exact canonical?_item front back (ih (inside _ (List.mem_append_right _ List.mem_cons_self)))
  | @field kind f front back d e named hf _ ih =>
    rcases hd with _ | _ | ⟨_, -, inside⟩
    have hread := ih (inside (literal f.spelling, d) (List.mem_append_right _ List.mem_cons_self))
    have hkey := lookup_replaced front back (literal f.spelling) d e kindKey
    have hnamed : (front ++ (literal f.spelling, e) :: back).lookup kindKey =
        some (.str (literal kind.name)) := by
      obtain heq | ⟨heq, -⟩ := hkey
      · rw [← heq, named]
      · exact absurd heq.symm f.spelling_ne_kindKey
    refine canonical?_node named hnamed fun g _ => ?_
    obtain heq | ⟨-, hold, hnew⟩ :=
      lookup_replaced front back (literal f.spelling) d e (literal g.spelling)
    · rw [heq]
    · rw [hold, hnew]
      exact hread

theorem Change.isUnambiguous_iff {d e : Json σ} (h : Change d e) :
    d.IsUnambiguous ↔ e.IsUnambiguous := by
  induction h with
  | reorder h => exact ⟨h.isUnambiguous, h.symm.isUnambiguous⟩
  | insert front back entry _ _ fresh inside =>
    have hperm : (front ++ entry :: back).Perm (entry :: (front ++ back)) := List.perm_middle
    rw [Json.isUnambiguous_object_iff, Json.isUnambiguous_object_iff,
      (hperm.map Prod.fst).nodup_iff, List.map_cons, List.nodup_cons]
    simp only [hperm.mem_iff, List.forall_mem_cons]
    exact ⟨fun h => ⟨⟨fresh, h.1⟩, inside, h.2⟩, fun h => ⟨h.1.2, h.2.2⟩⟩
  | item front back _ ih =>
    rw [Json.isUnambiguous_array_iff, Json.isUnambiguous_array_iff, List.forall_mem_append,
      List.forall_mem_append, List.forall_mem_cons, List.forall_mem_cons, ih]
  | field _ _ front back _ _ _ ih =>
    rw [Json.isUnambiguous_object_iff, Json.isUnambiguous_object_iff, List.forall_mem_append,
      List.forall_mem_append, List.forall_mem_cons, List.forall_mem_cons, ih, List.map_append,
      List.map_append, List.map_cons, List.map_cons]

/-- Changes made one after the other, or undone. -/
theorem Varied.canonical?_eq {d e : Json σ} (h : Varied d e) :
    (d.IsUnambiguous ↔ e.IsUnambiguous) ∧ (d.IsUnambiguous → canonical? d = canonical? e) := by
  induction h with
  | rel d e h => exact ⟨h.isUnambiguous_iff, h.canonical?_eq⟩
  | refl d => exact ⟨Iff.rfl, fun _ => rfl⟩
  | symm d e _ ih => exact ⟨ih.1.symm, fun he => (ih.2 (ih.1.mpr he)).symm⟩
  | trans d e f _ _ ih ih' =>
    exact ⟨ih.1.trans ih'.1, fun hd => (ih.2 hd).trans (ih'.2 (ih.1.mp hd))⟩

/-! ## The data in order determines the tree -/

/-- Objects that are the same in order have under a key what is the same where objects are compared
as maps. -/
theorem sameBy_of_lookup {xs ys : List (σ × Json σ)} (hxs : (Json.object xs).IsUnambiguous)
    (hys : (Json.object ys).IsUnambiguous)
    (h : (Json.object xs).sorted = (Json.object ys).sorted) {key : σ} {d e : Json σ}
    (hd : xs.lookup key = some d) (he : ys.lookup key = some e) :
    d.sorted = e.sorted ∧ d.sameBy (· == ·) e = true := by
  rw [Json.isUnambiguous_object_iff] at hxs hys
  have hsame := Json.lookup_eq_of_sorted_eq hxs.1 hys.1 h key
  rw [hd, he, Option.map_some, Option.map_some, Option.some_inj] at hsame
  exact ⟨hsame, Json.sameBy_of_sorted_eq (hxs.2 _ (mem_of_lookup hd)) (hys.2 _ (mem_of_lookup he))
    hsame⟩

theorem alike_location {l m : Location σ} (hl : l.toJson.IsUnambiguous)
    (hm : m.toJson.IsUnambiguous) (h : l.toJson.sorted = m.toJson.sorted) :
    (location l).Alike (.location m) := by
  rw [Location.toJson] at hl hm h
  rw [Location.toJson] at h
  have hsame {name : String} {d e : Json σ} (hd : _ = some d) (he : _ = some e) :=
    (sameBy_of_lookup hl hm h ((lookup_location l name).trans hd)
      ((lookup_location m name).trans he)).2
  refine .location ?_
  rw [Location.sameBy, @hsame "lineno" _ _ rfl rfl, @hsame "col_offset" _ _ rfl rfl,
    @hsame "end_lineno" _ _ rfl rfl, @hsame "end_col_offset" _ _ rfl rfl,
    @hsame "source_file" _ _ rfl rfl]
  rfl

/-- Nodes of one kind that are the same in order are so field by field. -/
theorem sorted_field {kind : Kind} {xs ys : Field → Value σ}
    (hxs : (toJson (.node kind xs)).IsUnambiguous) (hys : (toJson (.node kind ys)).IsUnambiguous)
    (h : (toJson (.node kind xs)).sorted = (toJson (.node kind ys)).sorted) {f : Field}
    (hf : kind.has f = true) : (xs f).toJson.sorted = (ys f).toJson.sorted := by
  obtain ⟨entries, hentries, -, hfields⟩ := exists_entries_of_node hxs
  obtain ⟨entries', hentries', -, hfields'⟩ := exists_entries_of_node hys
  rw [hentries, hentries'] at h
  cases h
  exact Option.some_inj.mp ((hfields f hf).symm.trans (hfields' f hf))

/-- Values that are the same in order are read back as one value. -/
theorem exists_alike_of_sorted_eq {v w : Value σ} (hv : IsRegular v) (hw : IsRegular w)
    (hvu : v.toJson.IsUnambiguous) (hwu : w.toJson.IsUnambiguous)
    (h : v.toJson.sorted = w.toJson.sorted) : ∃ u : Value σ, v.Alike u ∧ w.Alike u := by
  obtain ⟨u, hu, hvalike⟩ := ofField_sorted hv hvu
  obtain ⟨u', hu', hwalike⟩ := ofField_sorted hw hwu
  rw [← h, hu] at hu'
  cases hu'
  exact ⟨u, hvalike, hwalike⟩

omit [DecidableEq σ] in
/-- Lists that are the same in order are so item by item. -/
theorem sorted_items {xs ys : List (Value σ)}
    (h : (toJson (.seq xs)).sorted = (toJson (.seq ys)).sorted) :
    List.Forall₂ (fun v w => v.toJson.sorted = w.toJson.sorted) xs ys := by
  rw [toJson, toJson, Json.sorted_array, Json.sorted_array, toItems_eq_map, toItems_eq_map,
    List.map_map, List.map_map] at h
  exact List.forall₂_map_right_iff.mp (List.forall₂_map_left_iff.mp
    (List.forall₂_eq_eq_eq ▸ Json.array.inj h))

omit [DecidableEq σ] in
theorem isUnambiguous_items {items : List (Value σ)} (h : (toJson (.seq items)).IsUnambiguous)
    {v : Value σ} (hv : v ∈ items) : v.toJson.IsUnambiguous := by
  rw [toJson, toItems_eq_map, Json.isUnambiguous_array_iff] at h
  exact h _ (List.mem_map_of_mem hv)

/-- **Values that are the same in order are alike.** -/
theorem alike_of_sorted_eq {v w : Value σ} (hv : IsRegular v) (hw : IsRegular w)
    (hvu : v.toJson.IsUnambiguous) (hwu : w.toJson.IsUnambiguous)
    (h : v.toJson.sorted = w.toJson.sorted) : v.Alike w := by
  -- what both are read back as tells that they are of one sort, and nodes of one kind
  obtain ⟨u, hvalike, hwalike⟩ := exists_alike_of_sorted_eq hv hw hvu hwu h
  induction hv generalizing w u with
  | scalar s =>
    cases hvalike
    cases hwalike
    exact .scalar s
  | table entries nameless =>
    cases hvalike
    cases hwalike
    exact .table (Json.sameBy_of_sorted_eq hvu hwu h)
  | location l =>
    cases hvalike
    cases hwalike
    exact alike_location hvu hwu h
  | seq items regular ih =>
    cases hvalike
    cases hwalike
    rcases hw with _ | _ | _ | ⟨_, regular'⟩
    have hitems := sorted_items h
    refine .seq (List.forall₂_iff_get.mpr ⟨hitems.length_eq, fun i hi hi' => ?_⟩)
    have hmem := List.get_mem items ⟨i, hi⟩
    have hmem' := List.get_mem _ ⟨i, hi'⟩
    have hsorted := (List.forall₂_iff_get.mp hitems).2 i hi hi'
    obtain ⟨u, hu, hu'⟩ := exists_alike_of_sorted_eq (regular _ hmem) (regular' _ hmem')
      (isUnambiguous_items hvu hmem) (isUnambiguous_items hwu hmem') hsorted
    exact ih _ hmem (regular' _ hmem') (isUnambiguous_items hvu hmem)
      (isUnambiguous_items hwu hmem') hsorted u hu hu'
  | node kind field regular absent ih =>
    cases hvalike
    cases hwalike
    rcases hw with _ | _ | _ | _ | ⟨_, field', regular', absent'⟩
    refine .node kind fun f => ?_
    rcases hf : kind.has f with _ | _
    · rw [absent f hf, absent' f hf]
      exact .scalar _
    · have hsorted := sorted_field hvu hwu h hf
      obtain ⟨u, hu, hu'⟩ := exists_alike_of_sorted_eq (regular f) (regular' f)
        (isUnambiguous_field hvu hf) (isUnambiguous_field hwu hf) hsorted
      exact ih f (regular' f) (isUnambiguous_field hvu hf) (isUnambiguous_field hwu hf)
        hsorted u hu hu'

/-! ## The text as a key -/

omit [DecidableEq σ] in
/-- Trees whose data is the same in order are written alike. -/
theorem written_eq_of_sorted_eq {v w : Value σ} (h : v.toJson.sorted = w.toJson.sorted)
    (indent : Option Int) : v.written indent = w.written indent := by
  rw [written, written, ← v.toJson.hasLong_sorted, ← w.toJson.hasLong_sorted, h, toText, toText,
    Json.render_eq_of_sorted_eq h]

omit [DecidableEq σ] in
theorem toText_of_written {v : Value σ} {indent : Option Int} {text : String}
    (h : v.written indent = .ok text) : v.toText indent = text := by
  rw [written] at h
  split at h
  · cases h
  · exact Except.ok.inj h

/-- **The text of a tree is canonical.**  Data that is changed in ways that do not matter is still
read as a tree, which is alike and written alike in every layout; and trees that were read from data
are alike in every field as soon as they have the same text, if no text in them holds a pair of
surrogates.  In the data no object repeats a key. -/
theorem written_canonical :
    (∀ (d e : Json σ) (n : Value σ), d.IsUnambiguous → Varied d e → ofJson d = .ok n →
      ∃ m, ofJson e = .ok m ∧ n.Alike m ∧ ∀ indent, m.written indent = n.written indent) ∧
    ∀ (d e : Json σ) (n m : Value σ) (i j : Option Int) (text : String), d.IsUnambiguous →
      e.IsUnambiguous → ofJson d = .ok n → ofJson e = .ok m → n.toJson.IsPairless →
      m.toJson.IsPairless → n.written i = .ok text → m.written j = .ok text → n.Alike m := by
  constructor
  · intro d e n hd hvaried hn
    obtain ⟨hread, hnode⟩ := ofJson_eq_ok_iff.mp hn
    obtain ⟨hunambiguous, hcanonical⟩ := hvaried.canonical?_eq
    have he := hunambiguous.mp hd
    obtain ⟨m, hm, hsorted⟩ :=
      exists_of_canonical? ((hcanonical hd).symm.trans (canonical?_of_eq_ok hread))
    have halike := alike_of_sorted_eq (isRegular_of_ofField hread) (isRegular_of_ofField hm)
      (isUnambiguous_of_ofField hd hread) (isUnambiguous_of_ofField he hm) hsorted.symm
    refine ⟨m, ofJson_eq_ok_iff.mpr ⟨hm, ?_⟩, halike, written_eq_of_sorted_eq hsorted⟩
    cases halike with
    | node kind _ => rfl
    | _ => cases hnode
  · intro d e n m i j text hd he hn hm hnp hmp hni hmj
    have hnu := isUnambiguous_of_ofField hd (ofJson_eq_ok_iff.mp hn).1
    have hmu := isUnambiguous_of_ofField he (ofJson_eq_ok_iff.mp hm).1
    have htext : n.toText i = m.toText j :=
      (toText_of_written hni).trans (toText_of_written hmj).symm
    exact alike_of_sorted_eq (isRegular_of_ofJson hn).1 (isRegular_of_ofJson hm).1 hnu hmu
      (Json.sorted_eq_of_render_eq hnu hmu hnp hmp htext)

/-- A number with an object in the place of its value, and a location. -/
def plainNumber : Json :=
  .object [("value", .object [("b", .int 1), ("a", .int 2)]),
    ("location", .object [("_type", .str "SourceLocation"), ("lineno", .int 1),
      ("col_offset", .int 0)]),
    ("_type", .str "Integer")]

/-- A location whose end is said not to be known. -/
def openLocation : Json :=
  .object [("_type", .str "SourceLocation"), ("end_lineno", .null), ("lineno", .int 1),
    ("col_offset", .int 0)]

/-- The same number, with its entries in another order, and a note. -/
def notedNumber : Json :=
  .object [("location", openLocation), ("value", .object [("a", .int 2), ("b", .int 1)]),
    ("note", .str "x"), ("_type", .str "Integer")]

theorem isUnambiguous_plainNumber : plainNumber.IsUnambiguous := by
  simp only [plainNumber, Json.isUnambiguous_object_iff, List.forall_mem_cons]
  refine ⟨by decide, ⟨by decide, ?_⟩, ⟨by decide, ?_⟩, .scalar _, List.forall_mem_nil _⟩
  · exact ⟨.scalar _, .scalar _, List.forall_mem_nil _⟩
  · exact ⟨.scalar _, .scalar _, .scalar _, List.forall_mem_nil _⟩

theorem varied_notedNumber : Varied plainNumber notedNumber := by
  have hend : Change plainNumber _ :=
    .field .integer .location [("value", .object [("b", .int 1), ("a", .int 2)])]
      [("_type", .str "Integer")] rfl rfl
      (.insert [("_type", .str "SourceLocation")] [("lineno", .int 1), ("col_offset", .int 0)]
        ("end_lineno", .null) rfl (.absent "end_lineno" (by decide) (by decide)) (by decide)
        (.scalar _))
  have hvalue := Change.reorder (.value [] [("location", openLocation), ("_type", .str "Integer")]
    "value" (.entries (List.Perm.swap ("a", .int 2) ("b", .int 1) [])))
  have hnote := Change.insert
    [("value", .object [("a", .int 2), ("b", .int 1)]), ("location", openLocation)]
    [("_type", .str "Integer")] ("note", .str "x") rfl
    (.noField .integer _ (by decide) fun f _ => by cases f <;> decide) (by decide) (.scalar _)
  have horder : Change _ notedNumber := .reorder (.entries (List.Perm.swap _ _ _))
  exact ((Relation.EqvGen.rel _ _ hend).trans _ _ _ (.rel _ _ hvalue)).trans _ _ _
    ((Relation.EqvGen.rel _ _ hnote).trans _ _ _ (.rel _ _ horder))

theorem written_canonical_noted :
    ∃ n m text, ofJson plainNumber = .ok n ∧ ofJson notedNumber = .ok m ∧
      (∀ indent, m.written indent = n.written indent) ∧ n.written none = .ok text ∧
      n.Alike m := by
  obtain ⟨hsame, halike⟩ := @written_canonical String _ _
  obtain ⟨m, hm, -, hwritten⟩ :=
    hsame plainNumber notedNumber _ isUnambiguous_plainNumber varied_notedNumber rfl
  have hnoted := varied_notedNumber.canonical?_eq.1.mp isUnambiguous_plainNumber
  refine ⟨_, m, _, rfl, hm, hwritten, rfl, ?_⟩
  exact halike _ _ _ _ none none _ isUnambiguous_plainNumber hnoted rfl hm
    (Json.isPairless_string _) (Json.isPairless_string _) rfl ((hwritten none).trans rfl)

/-- The data of a string with a given content. -/
def stringOf (content : List CodePoint) : Json (List CodePoint) :=
  .object [(kindKey, .str (literal "String")), (literal "content", .str content)]

/-- The data of a number literal that is not a number. -/
def notNumber : Json := .object [("_type", .str "Float"), ("value", .scalar (.float .nan))]

/-- A pair of surrogates has the text of the character that it stands for, and is not that
character.  And what is not a number has the text of itself, and is not equal to itself. -/
theorem written_collisions :
    (∃ n m : Value (List CodePoint),
      ofJson (stringOf [.high 0x3D, .low 0x200]) = .ok n ∧
        ofJson (stringOf [.char '😀']) = .ok m ∧
          (∀ indent, ∃ text, n.written indent = .ok text ∧ m.written indent = .ok text) ∧
            ¬n.Alike m) ∧
    ∃ n m : Value, ofJson notNumber = .ok n ∧ ofJson notNumber = .ok m ∧
      (∀ indent, ∃ text, n.written indent = .ok text ∧ m.written indent = .ok text) ∧
        n.same m = false := by
  refine ⟨⟨ofFields .string [(.content, .scalar (.str [.high 0x3D, .low 0x200]))],
    ofFields .string [(.content, .scalar (.str [.char '😀']))], rfl, rfl,
    fun _ => ⟨_, rfl, rfl⟩, ?_⟩, _, _, rfl, rfl, fun _ => ⟨_, rfl, rfl⟩, rfl⟩
  rintro (_ | _ | _ | _ | ⟨_, same⟩)
  have hcontent := same .content
  cases hcontent

end Value
end TerseRuby
