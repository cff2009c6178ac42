import TerseRuby.Json.Reader
import TerseRuby.Proofs.Json.Lexing

/-!
# Documents are read back from their text

The second half: the machine that takes tokens is run on the tokens of a document.  Whatever
containers are open around it, reading a document has the one effect of delivering it to the
innermost of them (`Json.run?_tokens`), provided that no object in it repeats a key, for a repeated
key would overwrite the value before it.

With the first half, `Json.parse?_render` says that the text of an unambiguous document without
pairs of surrogates, in any layout, is read as the document with its objects in order.
-/

set_option autoImplicit false

namespace TerseRuby
namespace Json

variable {σ : Type}

/-! ## Steps of the machine -/

/-- Parts with commas between them begin with the first part. -/
theorem intercalate_cons (part : List (Token σ)) (parts : List (List (Token σ))) (last : Token σ) :
    ∃ more, List.intercalate [.comma] (part :: parts) ++ [last] = part ++ more := by
  rcases parts with _ | ⟨next, parts⟩
  · exact ⟨[last], by rw [List.intercalate_singleton]⟩
  · rw [List.intercalate_cons_cons, List.append_assoc, List.append_assoc]
    exact ⟨_, rfl⟩

variable [DecidableEq σ]

/-- Reading the tokens of the document has the one effect of delivering it. -/
def Delivers (d : Json σ) : Prop :=
  ∀ stack, run? (.value stack) (tokens d) = some (deliver d stack)

theorem run?_cons {state next : State σ} {token : Token σ} (h : step? state token = some next)
    (more : List (Token σ)) : run? state (token :: more) = run? next more := by
  rw [run?, h]
  rfl

theorem Delivers.run?_append {d : Json σ} (h : d.Delivers) (stack : List (Frame σ))
    (more : List (Token σ)) :
    run? (.value stack) (tokens d ++ more) = run? (deliver d stack) more := by
  rw [Json.run?_append, h stack, Option.bind_some]

/-! ## Lists -/

/-- At the start of a list a document is read as any later item, for it does not begin with the
bracket that would end the list. -/
theorem run?_firstItem (d : Json σ) (more : List (Token σ)) (stack : List (Frame σ)) :
    run? (.firstItem stack) (tokens d ++ more) =
      run? (.value (.array [] :: stack)) (tokens d ++ more) := by
  cases d <;> simp [tokens, run?, step?]

/-- Items that follow those that are done. -/
theorem run?_items {items : List (Json σ)} (hitems : ∀ d ∈ items, d.Delivers) (hne : items ≠ [])
    (done : List (Json σ)) (stack : List (Frame σ)) :
    run? (.value (.array done :: stack))
        (List.intercalate [.comma] (items.map tokens) ++ [.closeArray]) =
      some (deliver (.array (done.reverse ++ items)) stack) := by
  induction items generalizing done with
  | nil => exact absurd rfl hne
  | cons d rest ih =>
    obtain ⟨hd, hrest⟩ := List.forall_mem_cons.mp hitems
    rcases rest with _ | ⟨e, rest⟩
    · rw [List.map_singleton, List.intercalate_singleton, hd.run?_append, deliver,
        run?_cons rfl, List.reverse_cons]
      rfl
    · have hmore := ih hrest (List.cons_ne_nil e rest) (d :: done)
      rw [List.map_cons, List.map_cons, List.intercalate_cons_cons, ← List.map_cons,
        List.append_assoc, List.append_assoc, hd.run?_append, deliver, List.singleton_append,
        run?_cons rfl, hmore, List.reverse_cons, List.append_assoc]
      rfl

theorem delivers_array {items : List (Json σ)} (hitems : ∀ d ∈ items, d.Delivers) :
    (Json.array items).Delivers := by
  intro stack
  rw [tokens, itemTokens_eq_map, List.cons_append, run?_cons rfl]
  rcases items with _ | ⟨d, rest⟩
  · rfl
  · obtain ⟨more, hmore⟩ := intercalate_cons (tokens d) (rest.map tokens) .closeArray
    rw [List.map_cons, hmore, run?_firstItem, ← hmore, ← List.map_cons]
    exact run?_items hitems (List.cons_ne_nil d rest) [] stack

/-! ## Objects -/

theorem insertEntry_of_notMem {key : σ} {done : List (σ × Json σ)}
    (h : key ∉ done.map Prod.fst) (d : Json σ) : insertEntry key d done = done ++ [(key, d)] := by
  induction done with
  | nil => rfl
  | cons entry rest ih =>
    obtain ⟨k, e⟩ := entry
    rw [List.map_cons, List.mem_cons, not_or] at h
    have hne : (k == key) = false := beq_eq_false_iff_ne.mpr (Ne.symm h.1)
    rw [insertEntry, hne, if_neg Bool.false_ne_true, ih h.2, List.cons_append]

/-- One entry, after those that are done and have other keys. -/
theorem run?_entry {entry : σ × Json σ} (h : entry.2.Delivers) {done : List (σ × Json σ)}
    (hkey : entry.1 ∉ done.map Prod.fst) (stack : List (Frame σ)) (more : List (Token σ)) :
    run? (.nextKey done stack) (tokensOfEntry entry ++ more) =
      run? (.afterEntry (done ++ [entry]) stack) more := by
  rw [tokensOfEntry, List.cons_append, List.cons_append, run?_cons rfl, run?_cons rfl,
    h.run?_append, deliver, insertEntry_of_notMem hkey]

/-- At the start of an object a key is read as any later one. -/
theorem run?_firstKey (entry : σ × Json σ) (more : List (Token σ)) (stack : List (Frame σ)) :
    run? (.firstKey stack) (tokensOfEntry entry ++ more) =
      run? (.nextKey [] stack) (tokensOfEntry entry ++ more) := rfl

/-- Entries that follow those that are done, all with different keys. -/
theorem run?_entries {entries : List (σ × Json σ)}
    (hentries : ∀ entry ∈ entries, entry.2.Delivers) (hne : entries ≠ []) (done : List (σ × Json σ))
    (hdistinct : ((done ++ entries).map Prod.fst).Nodup) (stack : List (Frame σ)) :
    run? (.nextKey done stack)
        (List.intercalate [.comma] (entries.map tokensOfEntry) ++ [.closeObject]) =
      some (deliver (.object (done ++ entries)) stack) := by
  induction entries generalizing done with
  | nil => exact absurd rfl hne
  | cons entry rest ih =>
    obtain ⟨hentry, hrest⟩ := List.forall_mem_cons.mp hentries
    have hkey : entry.1 ∉ done.map Prod.fst := by
      intro hmem
      rw [List.map_append, List.map_cons] at hdistinct
      exact (List.nodup_append.mp hdistinct).2.2 _ hmem _ List.mem_cons_self rfl
    rcases rest with _ | ⟨next, rest⟩
    · rw [List.map_singleton, List.intercalate_singleton, run?_entry hentry hkey, run?_cons rfl]
      rfl
    · have hmore := ih hrest (List.cons_ne_nil next rest) (done ++ [entry])
        (by rwa [List.append_assoc])
      rw [List.map_cons, List.map_cons, List.intercalate_cons_cons, ← List.map_cons,
        List.append_assoc, List.append_assoc, run?_entry hentry hkey, List.singleton_append,
        run?_cons rfl, hmore, List.append_assoc]
      rfl

theorem delivers_object {entries : List (σ × Json σ)}
    (hentries : ∀ entry ∈ entries, entry.2.Delivers) (hdistinct : (entries.map Prod.fst).Nodup) :
    (Json.object entries).Delivers := by
  intro stack
  rw [tokens, entryTokens_eq_map, List.cons_append, run?_cons rfl]
  rcases entries with _ | ⟨entry, rest⟩
  · rfl
  · obtain ⟨more, hmore⟩ :=
      intercalate_cons (tokensOfEntry entry) (rest.map tokensOfEntry) .closeObject
    rw [List.map_cons, hmore, run?_firstKey, ← hmore, ← List.map_cons]
    exact run?_entries hentries (List.cons_ne_nil entry rest) [] hdistinct stack

/-! ## Documents -/

/-- **Reading the tokens of a document delivers it**, whatever is open around it. -/
theorem IsUnambiguous.delivers {d : Json σ} (h : d.IsUnambiguous) : d.Delivers := by
  induction h with
  | scalar s =>
    intro stack
    rfl
  | array items _ ih => exact delivers_array ih
  | object entries distinct _ ih => exact delivers_object ih distinct

/-- **A document is read back from its text**, with its objects in order. -/
theorem parse?_render [CodedText σ] (indent : Option Int) {d : Json σ} (h : d.IsUnambiguous)
    (hpairless : d.IsPairless) : parse? (d.render indent) = some d.sorted := by
  rw [parse?, render, String.toList_ofList, tokens?_write _ hpairless, Option.bind_eq_bind,
    Option.bind_some, h.sorted.delivers []]
  rfl

end Json
end TerseRuby
