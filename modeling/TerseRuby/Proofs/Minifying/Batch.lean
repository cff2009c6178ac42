import TerseRuby.Minifier

/-!
# A batch is its calls, one after the other

`Minifier.minifyMany` goes through its sources by recursion and puts together what it sees of every
call.  This file says what comes of it without the recursion: the calls for the single sources, from
the first one up to the first that fails, if one does.

* `minify_result` and `minify_asked` are one call: it fails as the parser does, or as the renderer
  does on what was read, and it asks the parser once either way.
* `minifyMany_cons_ok` and `minifyMany_cons_error` are one step.
* `minifyMany_of_ok` is a batch in which no call fails, and `minifyMany_of_error` one in which a
  call does; the sources after the first failing one are not looked at.
* `minifyMany_all_or_nothing` is both, with nothing left out: every batch is of one kind or of the
  other.
-/

set_option autoImplicit false

namespace TerseRuby
namespace Minifier

variable (m : Minifier) (file : Option String)

/-! ## One call -/

/-- A source is parsed, and what was read is rendered; the first failure is the failure. -/
theorem minify_result (query : Query) :
    (m.minify query).result = m.parse query >>= render m.options := by
  rw [minify]
  cases m.parse query with
  | error fault => rfl
  | ok tree => cases hrender : render m.options tree <;> simp [hrender, bind, Except.bind]

/-- The parser is asked once, for the source of the call. -/
theorem minify_asked (query : Query) : (m.minify query).asked = [query] := by
  rw [minify]
  cases m.parse query with
  | error fault => rfl
  | ok tree => cases hrender : render m.options tree <;> simp [hrender]

/-! ## One step of a batch -/

theorem minifyMany_cons_ok {source text : String} (sources : List String)
    (h : (m.minify (source, file)).result = .ok text) :
    m.minifyMany file (source :: sources) =
      { result := (m.minifyMany file sources).result.map (text :: ·)
        asked := (source, file) :: (m.minifyMany file sources).asked
        events := (m.minify (source, file)).events ++ (m.minifyMany file sources).events } := by
  rw [minifyMany]
  simp only [h, minify_asked, List.singleton_append]

theorem minifyMany_cons_error {source : String} {fault : Fault} (sources : List String)
    (h : (m.minify (source, file)).result = .error fault) :
    m.minifyMany file (source :: sources) =
      ⟨.error fault, [(source, file)], (m.minify (source, file)).events⟩ := by
  rw [minifyMany]
  simp only [h, minify_asked]

/-! ## All steps -/

/-- A batch in which no call fails. -/
theorem minifyMany_of_ok {sources texts : List String}
    (h : (sources.map fun source => (m.minify (source, file)).result) = texts.map .ok) :
    m.minifyMany file sources =
      ⟨.ok texts, sources.map (·, file),
        sources.flatMap fun source => (m.minify (source, file)).events⟩ := by
  induction sources generalizing texts with
  | nil =>
    rw [List.map_nil, eq_comm, List.map_eq_nil_iff] at h
    rw [h]
    rfl
  | cons source sources ih =>
    cases texts with
    | nil => cases h
    | cons text texts =>
      obtain ⟨hfirst, hothers⟩ := List.cons.inj h
      rw [minifyMany_cons_ok m file sources hfirst, ih hothers]
      rfl

/-- A batch in which a call fails, and none before it. -/
theorem minifyMany_of_error {before : List String} {source : String} {fault : Fault}
    (hbefore : ∀ earlier ∈ before, ∃ text, (m.minify (earlier, file)).result = .ok text)
    (h : (m.minify (source, file)).result = .error fault) (after : List String) :
    m.minifyMany file (before ++ source :: after) =
      ⟨.error fault, (before ++ [source]).map (·, file),
        (before ++ [source]).flatMap fun earlier => (m.minify (earlier, file)).events⟩ := by
  induction before with
  | nil =>
    rw [List.nil_append, minifyMany_cons_error m file after h]
    simp
  | cons first before ih =>
    obtain ⟨⟨text, hfirst⟩, hothers⟩ := List.forall_mem_cons.mp hbefore
    rw [List.cons_append, minifyMany_cons_ok m file _ hfirst, ih hothers]
    rfl

/-- Either all calls succeed, or there is a first one that fails. -/
theorem all_ok_or_first_error (sources : List String) :
    (∃ texts : List String,
      (sources.map fun source => (m.minify (source, file)).result) = texts.map .ok) ∨
    ∃ before source after fault, sources = before ++ source :: after ∧
      (∀ earlier ∈ before, ∃ text, (m.minify (earlier, file)).result = .ok text) ∧
      (m.minify (source, file)).result = .error fault := by
  induction sources with
  | nil => exact .inl ⟨[], rfl⟩
  | cons first sources ih =>
    cases hfirst : (m.minify (first, file)).result with
    | error fault => exact .inr ⟨[], first, sources, fault, rfl, List.forall_mem_nil _, hfirst⟩
    | ok text =>
      obtain ⟨texts, htexts⟩ | ⟨before, source, after, fault, rfl, hbefore, hsource⟩ := ih
      · exact .inl ⟨text :: texts, by rw [List.map_cons, hfirst, htexts, List.map_cons]⟩
      · exact .inr ⟨first :: before, source, after, fault, rfl,
          List.forall_mem_cons.mpr ⟨⟨text, hfirst⟩, hbefore⟩, hsource⟩

/-- **A batch is all or nothing.**  Either the call for every source succeeds; then the result is
their texts in order, and the parser was asked every source once, in order.  Or the call for some
source is the first to fail; then the result is its failure, and the parser was asked the sources up
to that one, each once and in order, and none after it.  The parser is always given the file of the
batch, and the records are those of the calls that were made, one after the other. -/
theorem minifyMany_all_or_nothing (sources : List String) :
    (∃ texts : List String,
      (sources.map fun source => (m.minify (source, file)).result) = texts.map .ok ∧
      m.minifyMany file sources =
        ⟨.ok texts, sources.map (·, file),
          sources.flatMap fun source => (m.minify (source, file)).events⟩) ∨
    ∃ before source after fault, sources = before ++ source :: after ∧
      (∀ earlier ∈ before, ∃ text, (m.minify (earlier, file)).result = .ok text) ∧
      (m.minify (source, file)).result = .error fault ∧
      m.minifyMany file sources =
        ⟨.error fault, (before ++ [source]).map (·, file),
          (before ++ [source]).flatMap fun earlier => (m.minify (earlier, file)).events⟩ := by
  obtain ⟨texts, htexts⟩ | ⟨before, source, after, fault, rfl, hbefore, hsource⟩ :=
    m.all_ok_or_first_error file sources
  · exact .inl ⟨texts, htexts, m.minifyMany_of_ok file htexts⟩
  · exact .inr ⟨before, source, after, fault, rfl, hbefore, hsource,
      m.minifyMany_of_error file hbefore hsource after⟩

end Minifier
end TerseRuby
