import TerseRuby.Proofs.Json.RoundTrip
import TerseRuby.Proofs.Tree.Serialized

/-!
# Trees are read back from their text

A program is written as JSON text by `Value.toText` and read from it by `Value.programOfText`.  The
text shows the data of the program with all objects in the order of their keys.  For a node that
makes no difference, since it is read by looking up its fields; an object that is carried along
untouched comes back in order, and is the same only where objects are compared as maps.

* `Value.Alike`: the same scalars, sequences and nodes, with the same value in every field; objects
  and the parts of locations are compared as maps.  Where there are no such objects, alike values
  are equal (`Alike.eq`).
* The data of what was read from unambiguous data is unambiguous (`isUnambiguous_of_ofField`), and
  so is that of a tree put together from nodes, sequences, locations and scalars.
* `Value.ofField_sorted`: from unambiguous data in order, a value is read that is alike.
-/

set_option autoImplicit false

namespace TerseRuby

namespace Value

open CodedText (literal)

/-! ## Item by item -/

theorem eq_of_forall₂ {α : Type} {R : α → α → Prop} {xs ys : List α} (h : List.Forall₂ R xs ys)
    (heq : ∀ x ∈ xs, ∀ y, R x y → y = x) : ys = xs := by
  induction h with
  | nil => rfl
  | cons hxy _ ih =>
    obtain ⟨hx, hxs⟩ := List.forall_mem_cons.mp heq
    rw [hx _ hxy, ih hxs]

theorem exists_forall₂ {α : Type} {R : α → α → Prop} {xs : List α}
    (h : ∀ x ∈ xs, ∃ y, R x y) : ∃ ys, List.Forall₂ R xs ys := by
  induction xs with
  | nil => exact ⟨[], .nil⟩
  | cons x xs ih =>
    obtain ⟨⟨y, hy⟩, hxs⟩ := List.forall_mem_cons.mp h
    obtain ⟨ys, hys⟩ := ih hxs
    exact ⟨y :: ys, .cons hy hys⟩

variable {σ : Type}

/-! ## Unambiguous data -/

section

variable [CodedText σ]

theorem nodup_fields (kind : Kind) : (kind.fields.map Prod.fst).Nodup := by
  cases kind <;> decide

theorem isUnambiguous_node {kind : Kind} {field : Field → Value σ}
    (h : ∀ f, (field f).toJson.IsUnambiguous) : (toJson (.node kind field)).IsUnambiguous := by
  rw [toJson]
  refine .object _ ?_ ?_
  · have hkeys : (kind.fields.map fun entry =>
        ((literal entry.1.spelling : σ), toJson (field entry.1))).map Prod.fst =
          (kind.fields.map Prod.fst).map fun f => literal f.spelling := by
      rw [List.map_map, List.map_map]
      rfl
    rw [List.map_cons, hkeys, List.nodup_cons]
    refine ⟨?_, (nodup_fields kind).map Field.spelling_injective⟩
    intro hmem
    obtain ⟨f, -, hf⟩ := List.mem_map.mp hmem
    exact f.spelling_ne_kindKey hf
  · refine List.forall_mem_cons.mpr ⟨.scalar _, fun entry hentry => ?_⟩
    obtain ⟨e, -, rfl⟩ := List.mem_map.mp hentry
    exact h e.1

theorem isUnambiguous_location {l : Location σ}
    (h : ∀ entry ∈ l.entries, entry.2.IsUnambiguous) : l.toJson.IsUnambiguous := by
  have hnames : ("_type" :: Location.partNames).Nodup := by decide
  have hkeys : (("_type" :: Location.partNames).map fun key => (literal key : σ)).Nodup :=
    hnames.map fun _ _ => CodedText.literal_injective
  exact .object _ hkeys (List.forall_mem_cons.mpr ⟨.scalar _, h⟩)

theorem IsComposed.isUnambiguous {v : Value σ} (h : IsComposed v) : v.toJson.IsUnambiguous := by
  induction h with
  | scalar s => exact .scalar s
  | location line column endLine endColumn file =>
    refine isUnambiguous_location ?_
    simp [Location.entries, Json.IsUnambiguous.scalar]
  | seq items _ ih =>
    rw [toJson, toItems_eq_map]
    refine .array _ fun d hd => ?_
    obtain ⟨v, hv, rfl⟩ := List.mem_map.mp hd
    exact ih v hv
  | node kind field _ _ ih => exact isUnambiguous_node ih

end

variable [DecidableEq σ]

/-! ## Alike values -/

/-- Identical, except that the entries of an object which is carried along untouched may stand in
another order. -/
inductive Alike : Value σ → Value σ → Prop where
  | scalar (s : Scalar σ) : Alike (.scalar s) (.scalar s)
  | table {xs ys : List (σ × Json σ)}
      (same : (Json.object xs).sameBy (· == ·) (.object ys) = true) : Alike (.table xs) (.table ys)
  | location {k l : Location σ} (same : k.sameBy (· == ·) l = true) :
      Alike (.location k) (.location l)
  | seq {xs ys : List (Value σ)} (same : List.Forall₂ Alike xs ys) : Alike (.seq xs) (.seq ys)
  | node (kind : Kind) {xs ys : Field → Value σ} (same : ∀ f, Alike (xs f) (ys f)) :
      Alike (.node kind xs) (.node kind ys)

theorem eq_scalar_of_sameBy {s : Scalar σ} {d : Json σ}
    (h : (Json.scalar s).sameBy (· == ·) d = true) : d = .scalar s := by
  rcases d with t | items | entries
  · rw [Json.sameBy] at h
    rw [eq_of_beq h]
  · cases h
  · cases h

/-- Where no object is carried along, alike values are equal. -/
theorem Alike.eq {v w : Value σ} (hv : IsComposed v) (h : v.Alike w) : w = v := by
  induction hv generalizing w with
  | scalar s =>
    cases h
    rfl
  | location line column endLine endColumn file =>
    rcases h with _ | _ | ⟨same⟩
    rename_i l
    obtain ⟨line', column', endLine', endColumn', file'⟩ := l
    simp only [Location.sameBy, Bool.and_eq_true] at same
    obtain ⟨⟨⟨⟨hline, hcolumn⟩, hendLine⟩, hendColumn⟩, hfile⟩ := same
    rw [eq_scalar_of_sameBy hline, eq_scalar_of_sameBy hcolumn, eq_scalar_of_sameBy hendLine,
      eq_scalar_of_sameBy hendColumn, eq_scalar_of_sameBy hfile]
  | seq items _ ih =>
    rcases h with _ | _ | _ | ⟨same⟩
    rw [eq_of_forall₂ same fun v hv w hw => ih v hv hw]
  | node kind field _ _ ih =>
    rcases h with _ | _ | _ | _ | ⟨_, same⟩
    congr 1
    funext f
    exact ih f (same f)

variable [CodedText σ]

/-! ## Data of what was read -/

theorem isUnambiguous_decode {entries : List (σ × Json σ)} {l : Location σ}
    (h : Location.decode entries = .ok l) (inside : ∀ entry ∈ entries, entry.2.IsUnambiguous) :
    l.toJson.IsUnambiguous := by
  have hpart (key : σ) : ((entries.lookup key).getD .null).IsUnambiguous := by
    rcases hlookup : entries.lookup key with _ | d
    · exact .scalar _
    · exact inside (key, d) (mem_of_lookup hlookup)
  rw [Location.decode] at h
  split at h
  · cases h
    refine isUnambiguous_location ?_
    simp [Location.entries, Location.ofEntries, hpart]
  · cases h

theorem isUnambiguous_of_assemble {kind : Kind} {entries : List (σ × Json σ)} {v : Value σ}
    (ih : ∀ entry ∈ entries, ∀ w, ofField entry.2 = .ok w → w.toJson.IsUnambiguous)
    (h : assemble kind (ofEntries entries) = .ok v) : v.toJson.IsUnambiguous := by
  obtain ⟨field, rfl, -, hfield⟩ := exists_of_assemble h
  refine isUnambiguous_node fun f => ?_
  rcases hfield f with ⟨entry, hentry, hread⟩ | hdefault
  · exact ih entry hentry (field f) hread
  · rw [hdefault]
    exact (isComposed_defaultOf kind f).isUnambiguous

/-- **What is read from unambiguous data is written as unambiguous data.** -/
theorem isUnambiguous_of_ofField {d : Json σ} (hd : d.IsUnambiguous) {v : Value σ}
    (h : ofField d = .ok v) : v.toJson.IsUnambiguous := by
  induction hd generalizing v with
  | scalar s =>
    rw [ofField] at h
    cases h
    exact .scalar s
  | array items _ ih =>
    obtain ⟨values, rfl, hvalues⟩ := exists_of_ofField_array h
    rw [toJson, toItems_eq_map]
    refine .array _ fun e he => ?_
    obtain ⟨w, hw, rfl⟩ := List.mem_map.mp he
    obtain ⟨d, hd, hread⟩ := hvalues w hw
    exact ih d hd hread
  | object entries distinct inside ih =>
    rcases cases_of_ofField_object h with ⟨-, rfl⟩ | ⟨l, hl, rfl⟩ | ⟨kind, hnode⟩
    · exact .object entries distinct inside
    · exact isUnambiguous_decode hl inside
    · exact isUnambiguous_of_assemble (fun entry hentry w hw => ih entry hentry hw) hnode

/-! ## Reading data in order -/

theorem ofField_sorted_table {entries : List (σ × Json σ)}
    (nameless : ((entries.lookup kindKey).getD .null).isNull = true)
    (h : (Json.object entries).IsUnambiguous) :
    ∃ w, ofField (Json.object entries).sorted = .ok w ∧ (table entries).Alike w := by
  have hsame := Json.sameBy_sorted h
  rcases h with _ | _ | ⟨_, distinct, -⟩
  rw [Json.sorted_object] at hsame ⊢
  refine ⟨_, ?_, .table hsame⟩
  rw [ofField, Json.lookup_sorted distinct]
  rcases hname : entries.lookup kindKey with _ | name
  · rfl
  · rw [hname, Option.getD_some] at nameless
    rw [Option.map_some]
    dsimp only
    rw [if_pos (by rw [Json.isNull_sorted, nameless])]

theorem ofField_sorted_location {l : Location σ} (h : l.toJson.IsUnambiguous) :
    ∃ w, ofField l.toJson.sorted = .ok w ∧ (location l).Alike w := by
  rcases h with _ | _ | ⟨_, distinct, inside⟩
  have hlookup (key : String) :=
    (Json.lookup_sorted distinct (literal key)).trans (congrArg _ (lookup_location l key))
  obtain ⟨line, column, endLine, endColumn, file⟩ := l
  refine ⟨.location ⟨line.sorted, column.sorted, endLine.sorted, endColumn.sorted, file.sorted⟩,
    ?_, ?_⟩
  · rw [Location.toJson, Json.sorted_object]
    refine ofField_ofLocation (hlookup "_type") ?_
    simp only [Location.decode, Location.missingEntries, Location.requiredEntries,
      Location.ofEntries, List.filter, hlookup]
    rfl
  · simp only [Location.entries, List.forall_mem_cons] at inside
    obtain ⟨-, hline, hcolumn, hendLine, hendColumn, hfile, -⟩ := inside
    refine .location ?_
    simp only [Location.sameBy, Json.sameBy_sorted hline, Json.sameBy_sorted hcolumn,
      Json.sameBy_sorted hendLine, Json.sameBy_sorted hendColumn, Json.sameBy_sorted hfile,
      Bool.and_self]

theorem isUnambiguous_field {kind : Kind} {field : Field → Value σ}
    (h : (toJson (.node kind field)).IsUnambiguous) {f : Field} (hf : kind.has f = true) :
    (field f).toJson.IsUnambiguous := by
  have hlookup := @lookup_node _ _ _ kind field f hf
  rw [toJson] at h
  rcases h with _ | _ | ⟨_, distinct, inside⟩
  exact inside _ ((lookup_eq_some_iff_mem distinct).mp hlookup)

/-- The data of a node in order names the kind of the node, and has each field under its
spelling. -/
theorem exists_entries_of_node {kind : Kind} {field : Field → Value σ}
    (h : (toJson (.node kind field)).IsUnambiguous) :
    ∃ entries, (toJson (.node kind field)).sorted = .object entries ∧
      entries.lookup kindKey = some (.str (literal kind.name)) ∧
      ∀ f, kind.has f = true →
        entries.lookup (literal f.spelling) = some (field f).toJson.sorted := by
  have hfield := @lookup_node _ _ _ kind field
  rw [toJson] at h ⊢
  rcases h with _ | _ | ⟨_, distinct, -⟩
  refine ⟨_, Json.sorted_object _, ?_, fun f hf => ?_⟩
  · rw [Json.lookup_sorted distinct, List.lookup_cons_self]
    rfl
  · rw [Json.lookup_sorted distinct, hfield hf, Option.map_some]

/-- The fields of a node, read in order, make up a node that is alike. -/
theorem assemble_sorted {kind : Kind} {field : Field → Value σ}
    (absent : ∀ f, kind.has f = false → field f = .null)
    (h : (toJson (.node kind field)).IsUnambiguous)
    (ih : ∀ f, (field f).toJson.IsUnambiguous →
      ∃ w, ofField (field f).toJson.sorted = .ok w ∧ (field f).Alike w) :
    ∃ entries w, (toJson (.node kind field)).sorted = .object entries ∧
      entries.lookup kindKey = some (.str (literal kind.name)) ∧
      assemble kind (ofEntries entries) = .ok w ∧ (node kind field).Alike w := by
  obtain ⟨entries, hentries, hkind, hfields⟩ := exists_entries_of_node h
  have hinside (f : Field) : (field f).toJson.IsUnambiguous := by
    rcases hhas : kind.has f with _ | _
    · rw [absent f hhas]
      exact .scalar _
    · exact isUnambiguous_field h hhas
  choose w hread halike using fun f => ih f (hinside f)
  refine ⟨entries, .node kind w, hentries, hkind, ?_, .node kind halike⟩
  refine assemble_of_all (fun f hf => ?_) fun f hhas => ?_
  · rw [lookup_ofEntries, hfields f hf, Option.map_some, hread]
  · have hnull := halike f
    rw [absent f hhas] at hnull
    exact Alike.eq (.scalar _) hnull

/-- **Data in order is read as a value that is alike.** -/
theorem ofField_sorted {v : Value σ} (hregular : IsRegular v) (h : v.toJson.IsUnambiguous) :
    ∃ w, ofField v.toJson.sorted = .ok w ∧ v.Alike w := by
  induction hregular with
  | scalar s => exact ⟨_, rfl, .scalar s⟩
  | table entries nameless => exact ofField_sorted_table nameless h
  | location l => exact ofField_sorted_location h
  | seq items _ ih =>
    rw [toJson, toItems_eq_map] at h ⊢
    rcases h with _ | ⟨_, inside⟩
    obtain ⟨values, hvalues⟩ := exists_forall₂ fun v hv =>
      ih v hv (inside _ (List.mem_map_of_mem hv))
    have hread : ofItems ((items.map toJson).map Json.sorted) = .ok values := by
      refine ofItems_eq_ok ?_
      rw [List.map_map, List.forall₂_map_left_iff]
      exact hvalues.imp fun _ _ hw => hw.1
    refine ⟨.seq values, ?_, .seq (hvalues.imp fun _ _ hw => hw.2)⟩
    rw [Json.sorted_array, ofField, hread]
    rfl
  | node kind field _ absent ih =>
    obtain ⟨entries, w, hentries, hkind, hread, halike⟩ := assemble_sorted absent h ih
    exact ⟨w, by rw [hentries, ofField_named hkind, hread], halike⟩

/-! ## Programs -/

end Value
end TerseRuby
