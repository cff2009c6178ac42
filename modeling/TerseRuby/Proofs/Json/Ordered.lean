import TerseRuby.Json.Writer
import Mathlib.Data.List.Forall2
import Mathlib.Data.List.Nodup

/-!
# Objects in the order of their keys

The entries of an object are written in the order of their keys, so the text of a document does not
show in which order they stood.  What it does show is the document with all its objects put in
order, and this file is about that document.

* `Json.IsUnambiguous`: no object of the document repeats a key.
* `Json.sorted`: every object put in the order of its keys.  The text of a document is that of its
  items and entries, taken in the order of `sorted` (`write_object`).
* Under each key of an unambiguous document the same value is found in either order
  (`lookup_sorted`), so both are the same where objects are compared as maps (`sameBy_sorted`).
-/

set_option autoImplicit false

namespace TerseRuby

/-! ## Looking up in any order -/

section Lookup

variable {κ α : Type} [DecidableEq κ] {xs ys : List (κ × α)}

theorem lookup_eq_some_iff_mem (h : (xs.map Prod.fst).Nodup) {key : κ} {a : α} :
    xs.lookup key = some a ↔ (key, a) ∈ xs := by
  induction xs with
  | nil => simp
  | cons entry rest ih =>
    obtain ⟨k, b⟩ := entry
    rw [List.map_cons, List.nodup_cons] at h
    rw [List.lookup_cons, List.mem_cons, Prod.mk.injEq]
    by_cases hkey : key = k
    · subst hkey
      have habsent : (key, a) ∉ rest := fun hmem =>
        h.1 (List.mem_map.mpr ⟨(key, a), hmem, rfl⟩)
      simp [habsent, eq_comm]
    · have hne : (key == k) = false := beq_eq_false_iff_ne.mpr hkey
      simp [hne, hkey, ih h.2]

theorem lookup_eq_of_perm (h : (xs.map Prod.fst).Nodup) (hperm : ys.Perm xs) (key : κ) :
    ys.lookup key = xs.lookup key := by
  have h' : (ys.map Prod.fst).Nodup := (hperm.map Prod.fst).nodup_iff.mpr h
  refine Option.ext fun a => ?_
  rw [lookup_eq_some_iff_mem h, lookup_eq_some_iff_mem h', hperm.mem_iff]

theorem lookup_map_snd {β : Type} (f : α → β) (key : κ) :
    (xs.map fun entry => (entry.1, f entry.2)).lookup key = (xs.lookup key).map f := by
  induction xs with
  | nil => rfl
  | cons entry rest ih =>
    rw [List.map_cons, List.lookup_cons, List.lookup_cons, ih]
    cases key == entry.1 <;> rfl

/-- Where one value is put in the place of another, that one is found instead. -/
theorem lookup_replaced (front back : List (κ × α)) (key : κ) (d e : α) (k : κ) :
    (front ++ (key, d) :: back).lookup k = (front ++ (key, e) :: back).lookup k ∨
      k = key ∧ (front ++ (key, d) :: back).lookup k = some d ∧
        (front ++ (key, e) :: back).lookup k = some e := by
  rw [List.lookup_append, List.lookup_append, List.lookup_cons, List.lookup_cons]
  rcases front.lookup k with _ | found
  · by_cases hk : k = key
    · subst hk
      exact .inr ⟨rfl, by simp, by simp⟩
    · rw [beq_eq_false_iff_ne.mpr hk]
      exact .inl rfl
  · exact .inl rfl

theorem lookup_fresh {entries : List (κ × α)} {key : κ}
    (fresh : key ∉ entries.map Prod.fst) : entries.lookup key = none := by
  rw [List.lookup_eq_none_iff]
  intro other hother
  have hne : other.1 ≠ key := fun heq => fresh (List.mem_map.mpr ⟨other, hother, heq⟩)
  simpa using hne.symm

/-- A new entry is found under its key only. -/
theorem lookup_inserted {front back : List (κ × α)} {entry : κ × α}
    (fresh : entry.1 ∉ (front ++ back).map Prod.fst) (k : κ) :
    (front ++ entry :: back).lookup k =
      if k = entry.1 then some entry.2 else (front ++ back).lookup k := by
  rw [List.map_append, List.mem_append, not_or] at fresh
  rw [List.lookup_append, List.lookup_cons, List.lookup_append]
  by_cases hk : k = entry.1
  · rw [if_pos hk, hk, lookup_fresh fresh.1, beq_self_eq_true]
    rfl
  · rw [if_neg hk, beq_eq_false_iff_ne.mpr hk]

end Lookup

namespace Json

variable {σ : Type}

/-! ## Equality part by part -/

section

variable [DecidableEq σ]

theorem sameItemsBy_map {eq : Scalar σ → Scalar σ → Bool} {f : Json σ → Json σ}
    {items : List (Json σ)} (h : ∀ d ∈ items, d.sameBy eq (f d) = true) :
    sameItemsBy eq items (items.map f) = true := by
  induction items with
  | nil => rfl
  | cons d rest ih =>
    obtain ⟨hd, hrest⟩ := List.forall_mem_cons.mp h
    rw [List.map_cons, sameItemsBy, hd, ih hrest, Bool.and_self]

theorem sameItemsBy_of_forall₂ {eq : Scalar σ → Scalar σ → Bool} {xs ys : List (Json σ)}
    (h : List.Forall₂ (fun d e => d.sameBy eq e = true) xs ys) : sameItemsBy eq xs ys = true := by
  induction h with
  | nil => rfl
  | cons hd _ ih => rw [sameItemsBy, hd, ih, Bool.and_self]

theorem sameEntriesBy_of_lookup {eq : Scalar σ → Scalar σ → Bool} {xs ys : List (σ × Json σ)}
    (h : ∀ entry ∈ xs, ∃ y, ys.lookup entry.1 = some y ∧ entry.2.sameBy eq y = true) :
    sameEntriesBy eq xs ys = true := by
  induction xs with
  | nil => rfl
  | cons entry rest ih =>
    obtain ⟨hentry, hrest⟩ := List.forall_mem_cons.mp h
    obtain ⟨y, hy, hsame⟩ := hentry
    rw [sameEntriesBy, hy, ih hrest, Bool.and_true]
    exact hsame

end

/-! ## Documents in order -/

/-- No object of the document repeats a key. -/
inductive IsUnambiguous : Json σ → Prop where
  | scalar (s : Scalar σ) : IsUnambiguous (.scalar s)
  | array (items : List (Json σ)) (inside : ∀ d ∈ items, IsUnambiguous d) :
      IsUnambiguous (.array items)
  | object (entries : List (σ × Json σ)) (distinct : (entries.map Prod.fst).Nodup)
      (inside : ∀ entry ∈ entries, IsUnambiguous entry.2) : IsUnambiguous (.object entries)

theorem isUnambiguous_array_iff {items : List (Json σ)} :
    (array items).IsUnambiguous ↔ ∀ d ∈ items, d.IsUnambiguous := by
  constructor
  · rintro (_ | ⟨_, inside⟩)
    exact inside
  · exact .array items

theorem isUnambiguous_object_iff {entries : List (σ × Json σ)} :
    (object entries).IsUnambiguous ↔
      (entries.map Prod.fst).Nodup ∧ ∀ entry ∈ entries, entry.2.IsUnambiguous := by
  constructor
  · rintro (_ | _ | ⟨_, distinct, inside⟩)
    exact ⟨distinct, inside⟩
  · rintro ⟨distinct, inside⟩
    exact .object entries distinct inside

variable [CodedText σ]

mutual

/-- A document with the entries of every object in the order of their keys. -/
def sorted : Json σ → Json σ
  | .scalar s => .scalar s
  | .array items => .array (sortedItems items)
  | .object entries => .object ((sortedEntries entries).mergeSort keyLe)

/-- The items of a list, each in order. -/
def sortedItems : List (Json σ) → List (Json σ)
  | [] => []
  | d :: rest => sorted d :: sortedItems rest

/-- The entries of an object, with values that are in order. -/
def sortedEntries : List (σ × Json σ) → List (σ × Json σ)
  | [] => []
  | (key, d) :: rest => (key, sorted d) :: sortedEntries rest

end

theorem sortedItems_eq_map (items : List (Json σ)) : sortedItems items = items.map sorted := by
  induction items with
  | nil => rfl
  | cons d rest ih => rw [sortedItems, ih, List.map_cons]

theorem sortedEntries_eq_map (entries : List (σ × Json σ)) :
    sortedEntries entries = entries.map fun entry => (entry.1, entry.2.sorted) := by
  induction entries with
  | nil => rfl
  | cons entry rest ih => rw [sortedEntries, ih, List.map_cons]

/-- Only keys are compared, so it does not matter whether values are changed before or after. -/
theorem mergeSort_map {α β : Type} (f : α → β) (entries : List (σ × α)) :
    (entries.map fun entry => (entry.1, f entry.2)).mergeSort keyLe =
      (entries.mergeSort keyLe).map fun entry => (entry.1, f entry.2) := by
  refine (List.map_mergeSort ?_).symm
  intro a _ b _
  rfl

theorem sorted_array (items : List (Json σ)) :
    sorted (.array items) = .array (items.map sorted) := by
  rw [sorted, sortedItems_eq_map]

theorem sorted_object (entries : List (σ × Json σ)) :
    sorted (.object entries) =
      .object ((entries.mergeSort keyLe).map fun entry => (entry.1, entry.2.sorted)) := by
  rw [sorted, sortedEntries_eq_map, mergeSort_map]

/-- Objects whose entries are the same in order, one by one. -/
theorem sorted_object_congr {xs ys : List (σ × Json σ)}
    (h : (xs.map fun entry => (entry.1, entry.2.sorted)) =
      ys.map fun entry => (entry.1, entry.2.sorted)) :
    (object xs).sorted = (object ys).sorted := by
  rw [sorted_object, sorted_object, ← mergeSort_map, ← mergeSort_map, h]

theorem eq_scalar_of_sorted {d : Json σ} {s : Scalar σ} (h : d.sorted = .scalar s) :
    d = .scalar s := by
  cases d with
  | scalar t => exact h
  | array items =>
    rw [sorted_array] at h
    cases h
  | object entries =>
    rw [sorted_object] at h
    cases h

theorem isNull_sorted (d : Json σ) : d.sorted.isNull = d.isNull := by
  cases d <;> rfl

/-! ## What is found under a key -/

theorem map_fst_sorted (entries : List (σ × Json σ)) :
    ((entries.mergeSort keyLe).map fun entry => (entry.1, entry.2.sorted)).map Prod.fst =
      (entries.mergeSort keyLe).map Prod.fst := by
  rw [List.map_map]
  rfl

theorem IsUnambiguous.sorted {d : Json σ} (h : d.IsUnambiguous) : d.sorted.IsUnambiguous := by
  induction h with
  | scalar s => exact .scalar s
  | array items _ ih =>
    rw [sorted_array]
    refine .array _ fun d hd => ?_
    obtain ⟨e, he, rfl⟩ := List.mem_map.mp hd
    exact ih e he
  | object entries distinct _ ih =>
    have hperm := List.mergeSort_perm entries keyLe
    rw [sorted_object]
    refine .object _ ?_ fun entry hentry => ?_
    · rw [map_fst_sorted]
      exact (hperm.map Prod.fst).nodup_iff.mpr distinct
    · obtain ⟨e, he, rfl⟩ := List.mem_map.mp hentry
      exact ih e (hperm.mem_iff.mp he)

section

variable [DecidableEq σ]

/-- Under each key stands the same value, in order. -/
theorem lookup_sorted {entries : List (σ × Json σ)} (h : (entries.map Prod.fst).Nodup)
    (key : σ) :
    ((entries.mergeSort keyLe).map fun entry => (entry.1, entry.2.sorted)).lookup key =
      (entries.lookup key).map sorted := by
  rw [lookup_map_snd, lookup_eq_of_perm h (List.mergeSort_perm entries keyLe)]

/-- **Where objects are compared as maps, a document is the same in order.** -/
theorem sameBy_sorted {d : Json σ} (h : d.IsUnambiguous) : d.sameBy (· == ·) d.sorted = true := by
  induction h with
  | scalar s =>
    rw [sorted, sameBy]
    exact beq_self_eq_true s
  | array items _ ih =>
    rw [sorted_array, sameBy]
    exact sameItemsBy_map ih
  | object entries distinct _ ih =>
    rw [sorted_object, sameBy, Bool.and_eq_true, List.length_map, List.length_mergeSort]
    refine ⟨beq_self_eq_true _, sameEntriesBy_of_lookup fun entry hentry => ?_⟩
    have hlookup : entries.lookup entry.1 = some entry.2 :=
      (lookup_eq_some_iff_mem distinct).mpr hentry
    exact ⟨entry.2.sorted, by rw [lookup_sorted distinct, hlookup]; rfl, ih entry hentry⟩

end

/-! ## Writing in order -/

theorem writeItems_eq_map (layout : Layout) (depth : Nat) (items : List (Json σ)) :
    writeItems layout depth items = items.map (write layout depth) := by
  induction items with
  | nil => rfl
  | cons d rest ih => rw [writeItems, ih, List.map_cons]

theorem writeEntries_eq_map (layout : Layout) (depth : Nat) (entries : List (σ × Json σ)) :
    writeEntries layout depth entries =
      entries.map fun entry => (entry.1, write layout depth entry.2) := by
  induction entries with
  | nil => rfl
  | cons entry rest ih => rw [writeEntries, ih, List.map_cons]

theorem write_array (layout : Layout) (depth : Nat) (items : List (Json σ)) :
    write layout depth (.array items) =
      layout.enclose depth '[' ']' (items.map (write layout (depth + 1))) := by
  rw [write, writeItems_eq_map]

/-- The entries of an object are written as they stand when it is put in order. -/
theorem write_object (layout : Layout) (depth : Nat) (entries : List (σ × Json σ)) :
    write layout depth (.object entries) =
      layout.enclose depth '\x7b' '\x7d' ((entries.mergeSort keyLe).map fun entry =>
        encodeEntry (entry.1, write layout (depth + 1) entry.2)) := by
  rw [write, writeEntries_eq_map, mergeSort_map, List.map_map]
  rfl

end Json
end TerseRuby
