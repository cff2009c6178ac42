import TerseRuby.Proofs.Json.Ordered
import TerseRuby.Tree.Decode
import TerseRuby.Tree.Encode
import Mathlib.Data.List.Forall2

/-!
# Trees and the data they are written as

A tree is written as data by `Value.recordToJson` and read from data by `Value.ofJson`.  This file
shows that reading gives back the tree that was written, with every field as it was.

That cannot hold of any value whatsoever.  An object that is carried along untouched is read back
as what it is only if it names no kind, and a node has nothing in the fields that its kind does not
have.  `Value.IsRegular` is this condition, and three facts make the result:

* a regular value is read back from its data (`ofField_toJson`);
* everything that is read is regular, whatever the data was (`isRegular_of_ofField`);
* a tree that is put together from nodes, sequences, locations and scalars alone is regular
  (`IsComposed.isRegular`); a tree whose fields hold what they are declared to hold is one.

Reading only ever asks for the value under a key, so what has to be known of the tables of kinds
and fields is that no two fields are spelled alike, and none like the entry for the kind.
-/

set_option autoImplicit false

namespace TerseRuby

open CodedText (literal literal_injective)

/-! ## Fields by their spelling -/

namespace Field

/-- All fields. -/
def all : List Field :=
  [.location, .body, .statements, .name, .value, .requireds, .optionals, .rest, .posts, .keywords,
   .keywordRest, .block, .parameters, .receiver, .constantPath, .superclass, .expression,
   .predicate, .alternate, .conditions, .index, .collection, .exceptions, .reference,
   .rescueClauses, .elseClause, .ensureClause, .arguments, .safeNavigation, .left, .right,
   .keyword, .content, .parts, .elements, .key, .exclusive, .parent, .target, .operator, .text]

/-- The field with a given spelling. -/
def ofSpelling? (s : String) : Option Field := all.find? fun f => f.spelling == s

theorem ofSpelling?_spelling (f : Field) : ofSpelling? f.spelling = some f := by
  cases f <;> cbv

theorem ofSpelling?_kindKey : ofSpelling? kindKey = none := by
  cbv

variable {σ : Type} [CodedText σ]

/-- No two fields are spelled alike. -/
theorem spelling_injective : Function.Injective fun f : Field => (literal f.spelling : σ) := by
  intro f g h
  have hf := ofSpelling?_spelling f
  rw [literal_injective h, ofSpelling?_spelling] at hf
  exact (Option.some_inj.mp hf).symm

/-- No field is spelled like the entry that names the kind. -/
theorem spelling_ne_kindKey (f : Field) : (literal f.spelling : σ) ≠ kindKey := by
  intro h
  have hf := ofSpelling?_spelling f
  rw [literal_injective h] at hf
  exact absurd (hf.symm.trans ofSpelling?_kindKey) (Option.some_ne_none f)

end Field

namespace Kind

theorem ofName?_literal {σ : Type} [DecidableEq σ] [CodedText σ] (s : String) :
    ofName? (literal s : σ) = ofName? s :=
  congrArg (List.find? · all) (funext fun k => CodedText.literal_beq k.name s)

theorem ofName?_locationName : ofName? Location.kindName = none := by
  cbv

/-- No kind of node is spelled like that of source locations. -/
theorem name_ne_locationName (k : Kind) : k.name ≠ Location.kindName := by
  intro h
  have hk := ofName?_name k
  rw [h, ofName?_locationName] at hk
  cases hk

theorem has_of_mem {k : Kind} {entry : Field × Default} (h : entry ∈ k.fields) :
    k.has entry.1 = true :=
  List.any_eq_true.mpr ⟨entry, h, beq_self_eq_true _⟩

theorem defaultOf_of_not_has {σ : Type} {k : Kind} {f : Field} (h : k.has f = false) :
    (k.defaultOf f : Value σ) = .null := by
  have hlookup : k.fields.lookup f = none := by
    rw [List.lookup_eq_none_iff]
    intro entry hentry
    have hne := List.any_eq_false.mp h entry hentry
    rw [beq_iff_eq] at hne
    simpa using fun hf => hne hf.symm
  rw [defaultOf, hlookup]

end Kind

/-- Looking up a field in a list that has an entry for each field of some kind, under a key that
tells fields apart. -/
theorem lookup_fields {κ α : Type} [BEq κ] [LawfulBEq κ] {key : Field → κ}
    (hkey : Function.Injective key) (value : Field → α) (k : Kind) (f : Field) :
    (k.fields.map fun entry => (key entry.1, value entry.1)).lookup (key f) =
      if k.has f then some (value f) else none := by
  rw [Kind.has]
  induction k.fields with
  | nil => rfl
  | cons entry rest ih =>
    rw [List.map_cons, List.lookup_cons, List.any_cons]
    by_cases h : f = entry.1
    · subst h
      simp
    · have hne : (key f == key entry.1) = false :=
        beq_eq_false_iff_ne.mpr fun hf => h (hkey hf)
      have hne' : (entry.1 == f) = false := beq_eq_false_iff_ne.mpr fun hf => h hf.symm
      rw [hne, hne', Bool.false_or]
      exact ih

/-- Looking up among keys that are given as characters. -/
theorem lookup_map_literal {σ α : Type} [DecidableEq σ] [CodedText σ] (entries : List (String × α))
    (key : String) :
    (entries.map fun entry => ((literal entry.1 : σ), entry.2)).lookup (literal key) =
      entries.lookup key := by
  induction entries with
  | nil => rfl
  | cons entry rest ih =>
    rw [List.map_cons, List.lookup_cons, List.lookup_cons, CodedText.literal_beq, ih]

namespace Value

variable {σ : Type}

/-! ## Composed values -/

/-- A value put together from nodes, sequences, locations and scalars, without any object that is
carried along untouched.  Every tree is one whose fields hold what their kinds declare: texts,
numbers, truth values, nodes and sequences of nodes, a location made of numbers and a text, or
nothing where nothing may stand. -/
inductive IsComposed : Value σ → Prop where
  | scalar (s : Scalar σ) : IsComposed (.scalar s)
  | location (line column endLine endColumn file : Scalar σ) :
      IsComposed
        (.location ⟨.scalar line, .scalar column, .scalar endLine, .scalar endColumn, .scalar file⟩)
  | seq (items : List (Value σ)) (composed : ∀ v ∈ items, IsComposed v) : IsComposed (.seq items)
  | node (kind : Kind) (field : Field → Value σ) (composed : ∀ f, IsComposed (field f))
      (absent : ∀ f, kind.has f = false → field f = .null) : IsComposed (.node kind field)

theorem mem_of_lookup {κ α : Type} [BEq κ] [LawfulBEq κ] {entries : List (κ × α)} {key : κ} {a : α}
    (h : entries.lookup key = some a) : (key, a) ∈ entries := by
  obtain ⟨front, rest, hsplit, -⟩ := List.lookup_eq_some_iff.mp h
  rw [hsplit]
  simp

theorem isComposed_defaultOf (kind : Kind) (f : Field) :
    IsComposed (kind.defaultOf f : Value σ) := by
  have hdefault (d : Default) : IsComposed (d.value : Value σ) := by
    rcases d with _ | _ | _ | _
    · exact .scalar _
    · exact .scalar _
    · exact .scalar _
    · exact .seq [] (List.forall_mem_nil _)
  rw [Kind.defaultOf]
  split
  · exact hdefault _
  · exact .scalar _

/-- A new node is put together like this if what its fields are given is. -/
theorem isComposed_ofFields {kind : Kind} {given : List (Field × Value σ)}
    (h : ∀ entry ∈ given, kind.has entry.1 = true ∧ IsComposed entry.2) :
    IsComposed (ofFields kind given) := by
  refine .node kind _ (fun f => ?_) fun f hf => ?_
  · rcases hlookup : given.lookup f with _ | v
    · exact isComposed_defaultOf kind f
    · exact (h _ (mem_of_lookup hlookup)).2
  · rcases hlookup : given.lookup f with _ | v
    · exact Kind.defaultOf_of_not_has hf
    · have hhas := (h _ (mem_of_lookup hlookup)).1
      rw [hf] at hhas
      cases hhas

variable [DecidableEq σ] [CodedText σ]

/-! ## Regular values -/

/-- A value that its data determines: what is carried along untouched names no kind, and a node has
nothing in the fields that its kind does not have. -/
inductive IsRegular : Value σ → Prop where
  | scalar (s : Scalar σ) : IsRegular (.scalar s)
  | table (entries : List (σ × Json σ))
      (nameless : ((entries.lookup kindKey).getD .null).isNull = true) : IsRegular (.table entries)
  | location (l : Location σ) : IsRegular (.location l)
  | seq (items : List (Value σ)) (regular : ∀ v ∈ items, IsRegular v) : IsRegular (.seq items)
  | node (kind : Kind) (field : Field → Value σ) (regular : ∀ f, IsRegular (field f))
      (absent : ∀ f, kind.has f = false → field f = .null) : IsRegular (.node kind field)

theorem IsComposed.isRegular {v : Value σ} (h : IsComposed v) : IsRegular v := by
  induction h with
  | scalar s => exact .scalar s
  | location line column endLine endColumn file => exact .location _
  | seq items _ ih => exact .seq items ih
  | node kind field _ absent ih => exact .node kind field ih absent

/-! ## Entry by entry -/

theorem ok_bind {α β : Type} (a : α) (f : α → Except Fault β) : (Except.ok a >>= f) = f a := rfl

omit [DecidableEq σ] in
theorem toItems_eq_map (items : List (Value σ)) : toItems items = items.map toJson := by
  induction items with
  | nil => rfl
  | cons v rest ih => rw [toItems, ih, List.map_cons]

theorem ofEntries_eq_map (entries : List (σ × Json σ)) :
    ofEntries entries = entries.map fun entry => (entry.1, ofField entry.2) := by
  induction entries with
  | nil => rfl
  | cons entry rest ih => rw [ofEntries, ih, List.map_cons]

theorem lookup_ofEntries (entries : List (σ × Json σ)) (key : σ) :
    (ofEntries entries).lookup key = (entries.lookup key).map ofField := by
  rw [ofEntries_eq_map, lookup_map_snd]

/-- Items that are read one by one are read together. -/
theorem ofItems_eq_ok {items : List (Json σ)} {values : List (Value σ)}
    (h : List.Forall₂ (fun d v => ofField d = .ok v) items values) :
    ofItems items = .ok values := by
  induction h with
  | nil => rfl
  | cons hd _ ih => rw [ofItems, hd, ih]; rfl

/-- What is read in a list is read from one of its items. -/
theorem exists_of_mem_ofItems {items : List (Json σ)} {values : List (Value σ)}
    (h : ofItems items = .ok values) {v : Value σ} (hv : v ∈ values) :
    ∃ d ∈ items, ofField d = .ok v := by
  induction items generalizing values with
  | nil =>
    cases h
    cases hv
  | cons d rest ih =>
    rw [ofItems] at h
    cases hd : ofField d with
    | error fault => rw [hd] at h; cases h
    | ok first =>
      cases hrest : ofItems rest with
      | error fault => rw [hd, hrest] at h; cases h
      | ok others =>
        rw [hd, hrest] at h
        cases h
        rcases List.mem_cons.mp hv with rfl | hv
        · exact ⟨d, List.mem_cons_self, hd⟩
        · obtain ⟨e, he, hread⟩ := ih hrest hv
          exact ⟨e, List.mem_cons_of_mem _ he, hread⟩

/-! ## Reading a node -/

/-- If every field has been read, the fields are collected in their order. -/
theorem collectFields_of_all {read : List (σ × Except Fault (Value σ))}
    {fields : List (Field × Default)} {field : Field → Value σ}
    (h : ∀ entry ∈ fields, read.lookup (literal entry.1.spelling) = some (.ok (field entry.1))) :
    collectFields read fields = .ok (fields.map fun entry => (entry.1, field entry.1)) := by
  induction fields with
  | nil => rfl
  | cons entry rest ih =>
    obtain ⟨hentry, hrest⟩ := List.forall_mem_cons.mp h
    rw [collectFields, hentry, ih hrest]
    rfl

/-- What is collected was read under the spelling of one of the fields. -/
theorem mem_of_collectFields {read : List (σ × Except Fault (Value σ))}
    {fields : List (Field × Default)} {given : List (Field × Value σ)}
    (h : collectFields read fields = .ok given) {f : Field} {v : Value σ} (hmem : (f, v) ∈ given) :
    f ∈ fields.map Prod.fst ∧ read.lookup (literal f.spelling) = some (.ok v) := by
  induction fields generalizing given with
  | nil =>
    cases h
    cases hmem
  | cons entry rest ih =>
    rw [collectFields] at h
    cases hread : read.lookup (literal entry.1.spelling) with
    | none =>
      rw [hread] at h
      obtain ⟨hf, hv⟩ := ih h hmem
      exact ⟨List.mem_cons_of_mem _ hf, hv⟩
    | some result =>
      cases result with
      | error fault => rw [hread] at h; cases h
      | ok w =>
        cases hrest : collectFields read rest with
        | error fault => rw [hread, hrest] at h; cases h
        | ok others =>
          rw [hread, hrest] at h
          cases h
          rcases List.mem_cons.mp hmem with heq | hmem
          · cases heq
            exact ⟨List.mem_cons_self, hread⟩
          · obtain ⟨hf, hv⟩ := ih hrest hmem
            exact ⟨List.mem_cons_of_mem _ hf, hv⟩

/-- A node is assembled from its entries if every one of its fields is among them. -/
theorem assemble_of_all {kind : Kind} {field : Field → Value σ}
    {read : List (σ × Except Fault (Value σ))}
    (h : ∀ f, kind.has f = true → read.lookup (literal f.spelling) = some (.ok (field f)))
    (absent : ∀ f, kind.has f = false → field f = .null) :
    assemble kind read = .ok (.node kind field) := by
  have hgiven : collectFields read kind.fields =
      .ok (kind.fields.map fun entry => (entry.1, field entry.1)) :=
    collectFields_of_all fun entry hentry => h entry.1 (Kind.has_of_mem hentry)
  have hid : Function.Injective (id : Field → Field) := Function.injective_id
  have hlookup := lookup_fields hid field kind
  have hmissing :
      missingFields kind (kind.fields.map fun entry => (entry.1, field entry.1)) = [] := by
    rw [missingFields, List.filterMap_eq_nil_iff]
    rintro ⟨f, d⟩ hentry
    have hf := hlookup f
    rw [Kind.has_of_mem hentry, if_pos rfl] at hf
    simp only [id] at hf
    simp [hf]
  have hnode : ofFields kind (kind.fields.map fun entry => (entry.1, field entry.1)) =
      .node kind field := by
    rw [ofFields]
    congr 1
    funext f
    have hf := hlookup f
    simp only [id] at hf
    rw [hf]
    cases hhas : kind.has f with
    | true => rfl
    | false => rw [absent f hhas]; exact Kind.defaultOf_of_not_has hhas
  rw [assemble, hgiven, ok_bind, hmissing]
  exact congrArg Except.ok hnode

/-- A node that was assembled has in each field what was read there, or the default. -/
theorem assemble_eq_ok {kind : Kind} {read : List (σ × Except Fault (Value σ))} {v : Value σ}
    (h : assemble kind read = .ok v) :
    ∃ field, v = .node kind field ∧ (∀ f, kind.has f = false → field f = .null) ∧
      ∀ f, read.lookup (literal f.spelling) = some (.ok (field f)) ∨
        field f = kind.defaultOf f := by
  rw [assemble] at h
  cases hgiven : collectFields read kind.fields with
  | error fault => rw [hgiven] at h; cases h
  | ok given =>
    rw [hgiven, ok_bind] at h
    split at h
    · cases h
      have hfield (f : Field) : given.lookup f = none ∨
          ∃ w, given.lookup f = some w ∧ (f, w) ∈ given := by
        cases hlookup : given.lookup f with
        | none => exact Or.inl rfl
        | some w => exact Or.inr ⟨w, rfl, mem_of_lookup hlookup⟩
      refine ⟨_, rfl, fun f hhas => ?_, fun f => ?_⟩
      · rcases hfield f with hnone | ⟨w, -, hmem⟩
        · rw [hnone]
          exact Kind.defaultOf_of_not_has hhas
        · obtain ⟨entry, hentry, rfl⟩ :=
            List.mem_map.mp (mem_of_collectFields hgiven hmem).1
          rw [Kind.has_of_mem hentry] at hhas
          exact Bool.noConfusion hhas
      · rcases hfield f with hnone | ⟨w, hsome, hmem⟩
        · rw [hnone]
          exact Or.inr rfl
        · rw [hsome]
          exact Or.inl (mem_of_collectFields hgiven hmem).2
    · cases h

/-! ## Writing and reading back -/

/-- The entry under the spelling of a field of a node that was written. -/
theorem lookup_node {kind : Kind} {field : Field → Value σ} {f : Field} (h : kind.has f = true) :
    (((kindKey : σ), Json.str (literal kind.name)) :: kind.fields.map fun entry =>
      (literal entry.1.spelling, toJson (field entry.1))).lookup (literal f.spelling) =
      some (toJson (field f)) := by
  have hkey : ((literal f.spelling : σ) == kindKey) = false :=
    beq_eq_false_iff_ne.mpr f.spelling_ne_kindKey
  rw [List.lookup_cons, hkey]
  have hfields := lookup_fields (@Field.spelling_injective σ _) (fun f => toJson (field f)) kind f
  rw [h, if_pos rfl] at hfields
  exact hfields

theorem resolveKind_name (kind : Kind) :
    resolveKind (.str (literal kind.name) : Json σ) = .ok kind := by
  rw [Json.str, resolveKind, Kind.ofName?_literal, Kind.ofName?_name]

/-- What names a kind is read as a node of that kind. -/
theorem ofField_named {entries : List (σ × Json σ)} {kind : Kind}
    (h : entries.lookup kindKey = some (.str (literal kind.name))) :
    ofField (.object entries) = assemble kind (ofEntries entries) := by
  have hname : ((Json.str (literal kind.name : σ)).text? == some (literal Location.kindName)) =
      false :=
    beq_eq_false_iff_ne.mpr fun heq =>
      kind.name_ne_locationName (literal_injective (Option.some_inj.mp heq))
  simp only [ofField, h, hname, resolveKind_name, ok_bind]
  rfl

/-- At the top a node is read as it is in a field. -/
theorem ofJson_named {entries : List (σ × Json σ)} {kind : Kind}
    (h : entries.lookup kindKey = some (.str (literal kind.name))) :
    ofJson (.object entries) = assemble kind (ofEntries entries) := by
  simp only [ofJson, h, Option.getD_some, resolveKind_name, ok_bind]
  rfl

/-- What names a location is read as one. -/
theorem ofField_ofLocation {entries : List (σ × Json σ)} {l : Location σ}
    (h : entries.lookup kindKey = some (.str (literal Location.kindName)))
    (hl : Location.decode entries = .ok l) : ofField (.object entries) = .ok (.location l) := by
  have hname : ((Json.str (literal Location.kindName : σ)).text? ==
      some (literal Location.kindName)) = true := beq_self_eq_true _
  rw [ofField, h]
  dsimp only
  rw [if_neg (by simp [Json.str, Json.isNull]), if_pos hname, hl]
  rfl

/-- Under the name of a part, the data of a location has that part. -/
theorem lookup_location (l : Location σ) (key : String) :
    ((kindKey, Json.str (literal Location.kindName)) :: l.entries).lookup (literal key) =
      [("_type", Json.str (literal Location.kindName)), ("lineno", l.line),
        ("col_offset", l.column), ("end_lineno", l.endLine), ("end_col_offset", l.endColumn),
        ("source_file", l.file)].lookup key :=
  lookup_map_literal [("_type", _), ("lineno", _), ("col_offset", _), ("end_lineno", _),
    ("end_col_offset", _), ("source_file", _)] key

/-- A location is read back from its parts, whatever they are. -/
theorem ofField_location (l : Location σ) : ofField l.toJson = .ok (.location l) := by
  refine ofField_ofLocation (lookup_location l "_type") ?_
  simp only [Location.decode, Location.missingEntries, Location.requiredEntries,
    Location.ofEntries, List.filter, lookup_location]
  rfl

/-- **A regular value is read back from its data.** -/
theorem ofField_toJson {v : Value σ} (h : IsRegular v) : ofField v.toJson = .ok v := by
  induction h with
  | scalar s => rw [toJson, ofField]
  | table entries nameless =>
    rw [toJson, ofField]
    split
    · rfl
    · rename_i name hname
      rw [hname, Option.getD_some] at nameless
      rw [if_pos nameless]
  | location l => rw [toJson, ofField_location]
  | seq items _ ih =>
    have hitems : ofItems (items.map toJson) = .ok items := by
      refine ofItems_eq_ok (List.forall₂_map_left_iff.mpr ?_)
      exact List.forall₂_same.mpr ih
    rw [toJson, toItems_eq_map, ofField, hitems]
    rfl
  | node kind field _ absent ih =>
    rw [toJson, ofField_named (List.lookup_cons_self)]
    refine assemble_of_all (fun f hf => ?_) absent
    rw [lookup_ofEntries, lookup_node hf, Option.map_some, ih f]

/-- A node is also read back at the top. -/
theorem ofJson_toJson {kind : Kind} {field : Field → Value σ} (h : IsRegular (.node kind field)) :
    ofJson (toJson (.node kind field)) = .ok (.node kind field) := by
  have hfield := ofField_toJson h
  rw [toJson, ofField_named (List.lookup_cons_self)] at hfield
  rw [toJson, ofJson_named (List.lookup_cons_self), hfield]

/-! ## Whatever is read is regular -/

/-- A node has in each field what one of the entries was read as, or the default. -/
theorem exists_of_assemble {kind : Kind} {entries : List (σ × Json σ)} {v : Value σ}
    (h : assemble kind (ofEntries entries) = .ok v) :
    ∃ field, v = .node kind field ∧ (∀ f, kind.has f = false → field f = .null) ∧
      ∀ f, (∃ entry ∈ entries, ofField entry.2 = .ok (field f)) ∨ field f = kind.defaultOf f := by
  obtain ⟨field, rfl, absent, hfield⟩ := assemble_eq_ok h
  refine ⟨field, rfl, absent, fun f => ?_⟩
  rcases hfield f with hread | hdefault
  · rw [lookup_ofEntries, Option.map_eq_some_iff] at hread
    obtain ⟨d, hd, hv⟩ := hread
    exact .inl ⟨(literal f.spelling, d), mem_of_lookup hd, hv⟩
  · exact .inr hdefault

theorem isRegular_of_assemble {kind : Kind} {entries : List (σ × Json σ)} {v : Value σ}
    (ih : ∀ entry ∈ entries, ∀ w, ofField entry.2 = .ok w → IsRegular w)
    (h : assemble kind (ofEntries entries) = .ok v) : IsRegular v := by
  obtain ⟨field, rfl, absent, hfield⟩ := exists_of_assemble h
  refine .node kind field (fun f => ?_) absent
  rcases hfield f with ⟨entry, hentry, hread⟩ | hdefault
  · exact ih entry hentry (field f) hread
  · rw [hdefault]
    exact (isComposed_defaultOf kind f).isRegular

/-- What an object is read as: itself if it names nothing, or a location, or a node. -/
theorem cases_of_ofField_object {entries : List (σ × Json σ)} {v : Value σ}
    (h : ofField (.object entries) = .ok v) :
    (((entries.lookup kindKey).getD .null).isNull = true ∧ v = .table entries) ∨
      (∃ l, Location.decode entries = .ok l ∧ v = .location l) ∨
      ∃ kind, assemble kind (ofEntries entries) = .ok v := by
  rw [ofField] at h
  split at h
  · rename_i hname
    cases h
    exact .inl ⟨by rw [hname]; rfl, rfl⟩
  · rename_i name hname
    split at h
    · rename_i hnull
      cases h
      exact .inl ⟨by rw [hname, Option.getD_some, hnull], rfl⟩
    · split at h
      · cases hl : Location.decode entries with
        | error fault => rw [hl] at h; cases h
        | ok l =>
          rw [hl] at h
          cases h
          exact .inr (.inl ⟨l, rfl, rfl⟩)
      · cases hkind : resolveKind name with
        | error fault => rw [hkind] at h; cases h
        | ok kind =>
          rw [hkind] at h
          exact .inr (.inr ⟨kind, h⟩)

/-- What a list is read as. -/
theorem exists_of_ofField_array {items : List (Json σ)} {v : Value σ}
    (h : ofField (.array items) = .ok v) :
    ∃ values, v = .seq values ∧ ∀ w ∈ values, ∃ d ∈ items, ofField d = .ok w := by
  rw [ofField] at h
  cases hitems : ofItems items with
  | error fault => rw [hitems] at h; cases h
  | ok values =>
    rw [hitems] at h
    cases h
    exact ⟨values, rfl, fun w hw => exists_of_mem_ofItems hitems hw⟩

theorem isRegular_of_ofField {d : Json σ} {v : Value σ} (h : ofField d = .ok v) : IsRegular v := by
  induction d using Json.induction generalizing v with
  | scalar s =>
    rw [ofField] at h
    cases h
    exact .scalar s
  | array items ih =>
    obtain ⟨values, rfl, hvalues⟩ := exists_of_ofField_array h
    refine .seq values fun w hw => ?_
    obtain ⟨d, hd, hread⟩ := hvalues w hw
    exact ih d hd hread
  | object entries ih =>
    rcases cases_of_ofField_object h with ⟨hname, rfl⟩ | ⟨l, -, rfl⟩ | ⟨kind, hnode⟩
    · exact .table entries hname
    · exact .location l
    · exact isRegular_of_assemble (fun entry hentry w hw => ih entry hentry hw) hnode

/-- What is read at the top is a node. -/
theorem exists_assemble_of_ofJson {d : Json σ} {n : Value σ} (h : ofJson d = .ok n) :
    ∃ entries kind, d = .object entries ∧ assemble kind (ofEntries entries) = .ok n := by
  cases d with
  | scalar s => cases h
  | array items => cases h
  | object entries =>
    rw [ofJson] at h
    split at h
    · cases h
    · cases hkind : resolveKind ((entries.lookup kindKey).getD .null) with
      | error fault => rw [hkind] at h; cases h
      | ok kind =>
        rw [hkind, ok_bind] at h
        exact ⟨entries, kind, rfl, h⟩

theorem isRegular_of_ofJson {d : Json σ} {n : Value σ} (h : ofJson d = .ok n) :
    IsRegular n ∧ n.isNode = true := by
  obtain ⟨entries, kind, -, h⟩ := exists_assemble_of_ofJson h
  refine ⟨isRegular_of_assemble (fun entry _ w hw => isRegular_of_ofField hw) h, ?_⟩
  obtain ⟨field, rfl, -⟩ := assemble_eq_ok h
  rfl

theorem recordToJson_bind_ofJson {n : Value σ} (hn : n.isNode = true) (h : IsRegular n) :
    n.recordToJson >>= ofJson = .ok n := by
  cases n with
  | node kind field => exact ofJson_toJson h
  | scalar s => cases hn
  | table entries => cases hn
  | location l => cases hn
  | seq items => cases hn

/-- **Trees are read back from the data they are written as.**  A node that was read from any data,
or that is put together from nodes, sequences, locations and scalars, can be written, and reading
what was written succeeds with the same node: the same value in every field, the location included,
at every depth.  So reading data and writing it again settles it: doing so a second time changes
nothing. -/
theorem ofJson_recordToJson :
    (∀ n : Value, (∃ d, ofJson d = .ok n) ∨ (n.isNode = true ∧ IsComposed n) →
      n.recordToJson >>= ofJson = .ok n) ∧
    (∀ d e : Json, ofJson d >>= recordToJson = .ok e → ofJson e >>= recordToJson = .ok e) := by
  refine ⟨?_, ?_⟩
  · rintro n (⟨d, hd⟩ | ⟨hn, hcomposed⟩)
    · obtain ⟨hregular, hn⟩ := isRegular_of_ofJson hd
      exact recordToJson_bind_ofJson hn hregular
    · exact recordToJson_bind_ofJson hn hcomposed.isRegular
  · intro d e h
    cases hd : ofJson d with
    | error fault => rw [hd] at h; cases h
    | ok n =>
      rw [hd, ok_bind] at h
      obtain ⟨hregular, hn⟩ := isRegular_of_ofJson hd
      have hread := recordToJson_bind_ofJson hn hregular
      rw [h, ok_bind] at hread
      rw [hread, ok_bind, h]

/-- An integer literal whose value is an object that names no kind, at a place that is none. -/
def oddInteger : Json :=
  .object [("_type", .str "Integer"), ("unknown", .object []),
    ("value", .object [("_type", .null), ("raw", .array [.int 1, .array []])]),
    ("location", .object [("_type", .str "SourceLocation"), ("col_offset", .null),
      ("lineno", .object [("_type", .str "Integer")])])]

/-- A number literal that is not a number, with nothing else given. -/
def plainFloat : Value := ofFields .float [(.value, .scalar (.float .nan))]

theorem isComposed_plainFloat : IsComposed plainFloat := by
  refine isComposed_ofFields (List.forall_mem_singleton.mpr ⟨?_, .scalar _⟩)
  decide

theorem ofJson_recordToJson_odd :
    (∃ n, ofJson oddInteger = .ok n ∧ n.recordToJson >>= ofJson = .ok n) ∧
      plainFloat.recordToJson >>= ofJson = .ok plainFloat :=
  ⟨⟨_, rfl, ofJson_recordToJson.1 _ (Or.inl ⟨oddInteger, rfl⟩)⟩,
    ofJson_recordToJson.1 _ (Or.inr ⟨rfl, isComposed_plainFloat⟩)⟩

end Value
end TerseRuby
