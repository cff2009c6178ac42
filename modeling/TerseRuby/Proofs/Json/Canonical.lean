import TerseRuby.Json.Display
import TerseRuby.Proofs.Json.RoundTrip

/-!
# Documents in order as a normal form

The text of a document depends on nothing but the document in order, and determines it: two
unambiguous documents without pairs of surrogates have the same text if and only if they are the
same in order.

* `Json.render_eq_of_sorted_eq` and `Json.sorted_eq_of_render_eq`, the two directions;
* `Json.sameBy_of_sorted_eq`: documents that are the same in order are the same where objects are
  compared as maps;
* `Json.hasLong_sorted`: whether the numbers in a document can be written does not depend on the
  order;
* `Json.Reordered`: one object, at any depth, lists its entries in another order.  That does not
  change the document in order (`Json.Reordered.sorted_eq`).
-/

set_option autoImplicit false

namespace TerseRuby
namespace Json

variable {σ : Type}

/-! ## Numbers that are not written -/

theorem any_congr {α : Type} {p q : α → Bool} {xs : List α} (h : ∀ a ∈ xs, p a = q a) :
    xs.any p = xs.any q := by
  rw [Bool.eq_iff_iff, List.any_eq_true, List.any_eq_true]
  exact exists_congr fun a => and_congr_right fun ha => by rw [h a ha]

theorem itemsHaveLong_eq_any (items : List (Json σ)) :
    itemsHaveLong items = items.any hasLong := by
  induction items with
  | nil => rfl
  | cons d rest ih => rw [itemsHaveLong, ih, List.any_cons]

theorem entriesHaveLong_eq_any (entries : List (σ × Json σ)) :
    entriesHaveLong entries = entries.any fun entry => entry.2.hasLong := by
  induction entries with
  | nil => rfl
  | cons entry rest ih => rw [entriesHaveLong, ih, List.any_cons]

section

variable [CodedText σ]

/-- A document in order has the same numbers. -/
theorem hasLong_sorted (d : Json σ) : d.sorted.hasLong = d.hasLong := by
  induction d using Json.induction with
  | scalar s => rw [sorted]
  | array items ih =>
    rw [sorted_array, hasLong, hasLong, itemsHaveLong_eq_any, itemsHaveLong_eq_any, List.any_map]
    exact any_congr ih
  | object entries ih =>
    rw [sorted_object, hasLong, hasLong, entriesHaveLong_eq_any, entriesHaveLong_eq_any,
      List.any_map, (List.mergeSort_perm entries keyLe).any_eq]
    exact any_congr ih

/-! ## Entries in the order of their keys -/

theorem keyLe_iff {α : Type} {a b : σ × α} :
    keyLe a b = true ↔ ¬CodedText.values b.1 < CodedText.values a.1 := by
  rw [keyLe, Bool.not_eq_true', decide_eq_false_iff_not]

theorem pairwise_keyLe_mergeSort {α : Type} (entries : List (σ × α)) :
    (entries.mergeSort keyLe).Pairwise fun a b => keyLe a b = true := by
  refine List.pairwise_mergeSort (fun a b c hab hbc => ?_) (fun a b => ?_) entries
  · rw [keyLe_iff, List.not_lt] at hab hbc
    exact keyLe_iff.mpr (List.not_lt.mpr (List.le_trans hab hbc))
  · rw [Bool.or_eq_true]
    exact (List.le_total _ _).imp (fun h => keyLe_iff.mpr (List.not_lt.mpr h)) fun h =>
      keyLe_iff.mpr (List.not_lt.mpr h)

/-- The same entries, with distinct keys, are the same in order. -/
theorem mergeSort_eq_of_perm {α : Type} {xs ys : List (σ × α)} (hperm : xs.Perm ys)
    (distinct : (xs.map Prod.fst).Nodup) : xs.mergeSort keyLe = ys.mergeSort keyLe := by
  have hsorted : (xs.mergeSort keyLe).Perm (ys.mergeSort keyLe) :=
    ((List.mergeSort_perm xs keyLe).trans hperm).trans (List.mergeSort_perm ys keyLe).symm
  refine hsorted.eq_of_pairwise (fun a b ha hb hab hba => ?_) (pairwise_keyLe_mergeSort xs)
    (pairwise_keyLe_mergeSort ys)
  rw [keyLe_iff, List.not_lt] at hab hba
  have hkey : a.1 = b.1 := CodedText.values_injective (List.le_antisymm hab hba)
  have hmem : a ∈ xs ∧ b ∈ xs :=
    ⟨(List.mergeSort_perm xs keyLe).mem_iff.mp ha, (List.mergeSort_perm xs keyLe).mem_iff.mp
      (hsorted.mem_iff.mpr hb)⟩
  exact List.inj_on_of_nodup_map distinct hmem.1 hmem.2 hkey

/-! ## The text and the document in order -/

/-- A document in order is written like the document. -/
theorem write_sorted (layout : Layout) (depth : Nat) (d : Json σ) :
    write layout depth d.sorted = write layout depth d := by
  induction d using Json.induction generalizing depth with
  | scalar s => rw [sorted]
  | array items ih =>
    rw [sorted_array, write_array, write_array, List.map_map]
    exact congrArg _ (List.map_congr_left fun d hd => ih d hd (depth + 1))
  | object entries ih =>
    have hsorted : (entries.mergeSort keyLe).mergeSort keyLe = entries.mergeSort keyLe :=
      List.mergeSort_of_pairwise (pairwise_keyLe_mergeSort entries)
    rw [sorted_object, write_object, write_object, mergeSort_map, hsorted, List.map_map]
    refine congrArg _ (List.map_congr_left fun entry hentry => ?_)
    have hmem : entry ∈ entries := (List.mergeSort_perm entries keyLe).mem_iff.mp hentry
    exact congrArg (fun text => encodeEntry (entry.1, text)) (ih entry hmem (depth + 1))

/-- **Documents that are the same in order have the same text.** -/
theorem render_eq_of_sorted_eq {d e : Json σ} (h : d.sorted = e.sorted) (indent : Option Int) :
    d.render indent = e.render indent := by
  rw [render, render, ← write_sorted _ _ d, ← write_sorted _ _ e, h]

/-- **Documents with the same text are the same in order**, whatever layouts they were written
in. -/
theorem sorted_eq_of_render_eq [DecidableEq σ] {d e : Json σ} (hd : d.IsUnambiguous)
    (he : e.IsUnambiguous) (hd' : d.IsPairless) (he' : e.IsPairless) {i j : Option Int}
    (h : d.render i = e.render j) : d.sorted = e.sorted := by
  have hread := parse?_render i hd hd'
  rw [h, parse?_render j he he'] at hread
  exact (Option.some_inj.mp hread).symm

/-! ## Documents that are the same in order -/

/-- Objects that are the same in order have under each key what is the same in order. -/
theorem lookup_eq_of_sorted_eq [DecidableEq σ] {xs ys : List (σ × Json σ)}
    (hxs : (xs.map Prod.fst).Nodup) (hys : (ys.map Prod.fst).Nodup)
    (h : (object xs).sorted = (object ys).sorted) (key : σ) :
    (xs.lookup key).map sorted = (ys.lookup key).map sorted := by
  rw [sorted_object, sorted_object] at h
  rw [← lookup_sorted hxs, ← lookup_sorted hys, Json.object.inj h]

/-- **Documents that are the same in order are the same**, where objects are compared as maps. -/
theorem sameBy_of_sorted_eq [DecidableEq σ] {d e : Json σ} (hd : d.IsUnambiguous)
    (he : e.IsUnambiguous) (h : d.sorted = e.sorted) : d.sameBy (· == ·) e = true := by
  induction hd generalizing e with
  | scalar s =>
    rcases he with _ | _ | _
    · cases h
      exact beq_self_eq_true s
    · rw [sorted_array] at h
      cases h
    · rw [sorted_object] at h
      cases h
  | array items inside ih =>
    rw [sorted_array] at h
    rcases he with _ | ⟨others, inside'⟩ | _
    · cases h
    · rw [sorted_array] at h
      have hitems : List.Forall₂ (fun d e => d.sorted = e.sorted) items others :=
        List.forall₂_map_right_iff.mp (List.forall₂_map_left_iff.mp
          (List.forall₂_eq_eq_eq ▸ Json.array.inj h))
      rw [sameBy]
      refine sameItemsBy_of_forall₂ ?_
      rw [List.forall₂_iff_get] at hitems ⊢
      refine ⟨hitems.1, fun i hi hi' => ?_⟩
      exact ih _ (List.get_mem items ⟨i, hi⟩) (inside' _ (List.get_mem others ⟨i, hi'⟩))
        (hitems.2 i hi hi')
    · rw [sorted_object] at h
      cases h
  | object entries distinct inside ih =>
    rcases he with _ | _ | ⟨others, distinct', inside'⟩
    · rw [sorted_object] at h
      cases h
    · rw [sorted_object, sorted_array] at h
      cases h
    · have hlookup := lookup_eq_of_sorted_eq distinct distinct' h
      have hlength : entries.length = others.length := by
        rw [sorted_object, sorted_object] at h
        simpa using congrArg List.length (Json.object.inj h)
      rw [sameBy, hlength, beq_self_eq_true, Bool.true_and]
      refine sameEntriesBy_of_lookup fun entry hentry => ?_
      have hfound := hlookup entry.1
      rw [(lookup_eq_some_iff_mem distinct).mpr hentry, Option.map_some] at hfound
      obtain ⟨e, he, hsorted⟩ := Option.map_eq_some_iff.mp hfound.symm
      have hmem := (lookup_eq_some_iff_mem distinct').mp he
      exact ⟨e, he, ih entry hentry (inside' _ hmem) hsorted.symm⟩

end

/-! ## Entries in another order -/

/-- One object of the document, at any depth, lists its entries in another order. -/
inductive Reordered : Json σ → Json σ → Prop where
  /-- The document itself does. -/
  | entries {xs ys : List (σ × Json σ)} (perm : xs.Perm ys) :
      Reordered (.object xs) (.object ys)
  /-- An object in an item of a list does. -/
  | item (front back : List (Json σ)) {d e : Json σ} (h : Reordered d e) :
      Reordered (.array (front ++ d :: back)) (.array (front ++ e :: back))
  /-- An object in the value of an entry does. -/
  | value (front back : List (σ × Json σ)) (key : σ) {d e : Json σ} (h : Reordered d e) :
      Reordered (.object (front ++ (key, d) :: back)) (.object (front ++ (key, e) :: back))

namespace Reordered

variable {d e : Json σ}

theorem symm (h : Reordered d e) : Reordered e d := by
  induction h with
  | entries perm => exact .entries perm.symm
  | item front back _ ih => exact .item front back ih
  | value front back key _ ih => exact .value front back key ih

theorem isUnambiguous (h : Reordered d e) (hd : d.IsUnambiguous) : e.IsUnambiguous := by
  induction h with
  | entries perm =>
    rcases hd with _ | _ | ⟨_, distinct, inside⟩
    refine .object _ ((perm.map Prod.fst).nodup_iff.mp distinct) fun entry hentry => ?_
    exact inside entry (perm.mem_iff.mpr hentry)
  | item front back _ ih =>
    rcases hd with _ | ⟨_, inside⟩
    rw [List.forall_mem_append, List.forall_mem_cons] at inside
    refine .array _ ?_
    rw [List.forall_mem_append, List.forall_mem_cons]
    exact ⟨inside.1, ih inside.2.1, inside.2.2⟩
  | value front back key _ ih =>
    rcases hd with _ | _ | ⟨_, distinct, inside⟩
    rw [List.forall_mem_append, List.forall_mem_cons] at inside
    refine .object _ (by simpa using distinct) ?_
    rw [List.forall_mem_append, List.forall_mem_cons]
    exact ⟨inside.1, ih inside.2.1, inside.2.2⟩

/-- **The order of entries does not matter to the document in order.** -/
theorem sorted_eq [CodedText σ] (h : Reordered d e) (hd : d.IsUnambiguous) :
    d.sorted = e.sorted := by
  induction h with
  | entries perm =>
    rcases hd with _ | _ | ⟨_, distinct, -⟩
    rw [sorted_object, sorted_object, mergeSort_eq_of_perm perm distinct]
  | item front back _ ih =>
    rcases hd with _ | ⟨_, inside⟩
    rw [sorted_array, sorted_array, List.map_append, List.map_append, List.map_cons,
      List.map_cons, ih (inside _ (by simp))]
  | value front back key _ ih =>
    rcases hd with _ | _ | ⟨_, -, inside⟩
    rw [sorted_object, sorted_object, ← mergeSort_map, ← mergeSort_map, List.map_append,
      List.map_append, List.map_cons, List.map_cons, ih (inside (key, _) (by simp))]

end Reordered
end Json
end TerseRuby
