import TerseRuby.Session

/-!
# The options in force at a place of a session

A session is a tree of steps, and running it keeps the active options in one variable that is set,
overwritten by blocks and threads, and put back after them.  A reader of the session wants to know
which options a step uses without running it.  This file says how to find them on the page:

* go to the innermost block or thread around the step (`Session.Place.own` has the options it
  starts with);
* of the steps before it there, take the last one that sets or resets the options, not looking into
  nested blocks (`Options.changedBy`);
* a renderer that was made with options of its own uses those, and any other the options in force
  where it is used, not where it was made.

`Session.Place.Answers` says this of one place, and `Session.answers_lexically` says that every
place of every session has the answer it says.
-/

set_option autoImplicit false

namespace TerseRuby

/-! ## Reading a session -/

/-- Renderers by name, the latest first. -/
abbrev Renderers := List (String × Option Options)

namespace Step

/-- The options that a step puts in force for what comes after it in its block.  A block or thread
puts none in force, whatever is done inside. -/
def change? : Step → Option Options
  | .setOptions o => some o
  | .resetOptions => some Options.default
  | _ => none

/-- The block or thread that a step is: the options it starts with, and its steps. -/
def inner? : Step → Option (Options × List Step)
  | .within o steps _ => some (o, steps)
  | .inThread steps => some (Options.default, steps)
  | _ => none

mutual

/-- The renderers that a step keeps, those of the steps inside it included, the latest first. -/
def made : Step → Renderers
  | .makeRenderer name o => [(name, o)]
  | .within _ steps _ => madeByAll steps
  | .inThread steps => madeByAll steps
  | _ => []

/-- The renderers that steps keep, the latest first. -/
def madeByAll : List Step → Renderers
  | [] => []
  | first :: rest => madeByAll rest ++ made first

end

end Step

/-- The options in force after some steps of a block: those of the last change among them, and the
ones before if there was none. -/
def Options.changedBy (o : Options) (steps : List Step) : Options :=
  (steps.filterMap Step.change?).getLast?.getD o

namespace Session

/-- A place in a session, and what stands around it. -/
structure Place where
  /-- The options that the innermost block or thread around it starts with. -/
  own : Options
  /-- The steps before it in that block or thread. -/
  earlier : List Step
  /-- The renderers made before it, anywhere in the session. -/
  renderers : Renderers
  /-- The step that stands there. -/
  step : Step

namespace Place

/-- The options in force at a place. -/
def active (p : Place) : Options := p.own.changedBy p.earlier

/-- What the answer to the step at a place is, as far as its surroundings decide about it. -/
def Answers (p : Place) (answer : Answer) : Prop :=
  match p.step with
  | .getOptions => answer = .options p.active
  | .setOptions _ => answer = .done
  | .resetOptions => answer = .done
  | .render tree none => answer = renderData p.active tree
  | .render tree (some o) => answer = renderData o tree
  | .makeRenderer _ _ => answer = .done
  | .renderWith name tree =>
    match p.renderers.lookup name with
    | none => answer = .failure (.missingEntry name)
    | some none => answer = renderData p.active tree
    | some (some o) => answer = renderData o tree
  | .within _ steps fails =>
    ∃ answers, answer = .block answers fails ∧ answers.length = steps.length
  | .inThread steps => ∃ answers, answer = .block answers false ∧ answers.length = steps.length

end Place

/-- The place at the end of a path, which leads from a row of steps into one of them and so on. -/
def placeAt? (own : Options) (renderers : Renderers) (steps : List Step) :
    List Nat → Option Place
  | [] => none
  | [i] => do
    let step ← steps[i]?
    return ⟨own, steps.take i, Step.madeByAll (steps.take i) ++ renderers, step⟩
  | i :: j :: path => do
    let step ← steps[i]?
    let (own, inner) ← step.inner?
    placeAt? own (Step.madeByAll (steps.take i) ++ renderers) inner (j :: path)

/-- The answer at the end of a path. -/
def answerAt? (answers : List Answer) : List Nat → Option Answer
  | [] => none
  | [i] => answers[i]?
  | i :: j :: path => do
    match ← answers[i]? with
    | .block inner _ => answerAt? inner (j :: path)
    | _ => none

/-! ## Running a session -/

/-- After a step the options are those it puts in force, and otherwise the ones before.  So a block
or thread leaves them as they were. -/
theorem step_active (s : Session) (st : Step) :
    (step s st).2.active = st.change?.getD s.active := by
  cases st <;> rfl

/-- After steps the options are those of the last change. -/
theorem run_active (s : Session) (steps : List Step) :
    (run s steps).2.active = s.active.changedBy steps := by
  induction steps generalizing s with
  | nil => rfl
  | cons first rest ih =>
    show (run (step s first).2 rest).2.active = _
    rw [ih, step_active, Options.changedBy, Options.changedBy, List.filterMap_cons]
    cases first.change? with
    | none => rfl
    | some o =>
      rw [List.getLast?_cons]
      rfl

mutual

/-- A step keeps the renderers made before it and adds its own. -/
theorem step_renderers (s : Session) :
    (st : Step) → (step s st).2.renderers = st.made ++ s.renderers
  | .getOptions => rfl
  | .setOptions _ => rfl
  | .resetOptions => rfl
  | .render _ _ => rfl
  | .makeRenderer _ _ => rfl
  | .renderWith _ _ => rfl
  | .within o steps _ => run_renderers { s with active := o } steps
  | .inThread steps => run_renderers { s with active := Options.default } steps

theorem run_renderers (s : Session) :
    (steps : List Step) → (run s steps).2.renderers = Step.madeByAll steps ++ s.renderers
  | [] => rfl
  | first :: rest => by
    show (run (step s first).2 rest).2.renderers = _
    rw [run_renderers (step s first).2 rest, step_renderers s first, Step.madeByAll,
      List.append_assoc]

end

/-- Every step has an answer. -/
theorem length_run (s : Session) (steps : List Step) : (run s steps).1.length = steps.length := by
  induction steps generalizing s with
  | nil => rfl
  | cons first rest ih => exact congrArg (· + 1) (ih (step s first).2)

/-- The answer to a step is given after the steps before it. -/
theorem run_getElem? (s : Session) (steps : List Step) (i : Nat) :
    (run s steps).1[i]? = steps[i]?.map fun st => (step (run s (steps.take i)).2 st).1 := by
  induction steps generalizing s i with
  | nil => rfl
  | cons first rest ih =>
    cases i with
    | zero => rfl
    | succ i => exact ih (step s first).2 i

/-- The answer to a step that is taken with the options and renderers of its place. -/
theorem answers_step {s : Session} {p : Place} (hactive : s.active = p.active)
    (hrenderers : s.renderers = p.renderers) : p.Answers (step s p.step).1 := by
  obtain ⟨own, earlier, renderers, st⟩ := p
  cases st with
  | getOptions => exact congrArg Answer.options hactive
  | render tree o =>
    cases o with
    | none => exact congrArg (renderData · tree) hactive
    | some o => rfl
  | renderWith name tree =>
    simp only [Place.Answers, step, useRenderer, hrenderers, hactive]
    rcases renderers.lookup name with _ | _ | o <;> rfl
  | within o steps fails => exact ⟨_, rfl, length_run _ steps⟩
  | inThread steps => exact ⟨_, rfl, length_run _ steps⟩
  | _ => rfl

/-- A block or thread is run with the options it starts with. -/
theorem step_inner {st : Step} {own : Options} {inner : List Step}
    (h : st.inner? = some (own, inner)) (s : Session) :
    ∃ failed, (step s st).1 = .block (run { s with active := own } inner).1 failed := by
  cases st with
  | within o steps fails =>
    cases h
    exact ⟨fails, rfl⟩
  | inThread steps =>
    cases h
    exact ⟨false, rfl⟩
  | _ => cases h

/-- Every place has the answer it says, in a row of steps that is run with any options and
renderers. -/
theorem answers_at (s : Session) (steps : List Step) (path : List Nat) {p : Place}
    (h : placeAt? s.active s.renderers steps path = some p) :
    ∃ answer, answerAt? (run s steps).1 path = some answer ∧ p.Answers answer := by
  induction path generalizing s steps with
  | nil => cases h
  | cons i path ih =>
    -- the session when the step at the head of the path is taken
    let before := (run s (steps.take i)).2
    have hrenderers : before.renderers = Step.madeByAll (steps.take i) ++ s.renderers :=
      run_renderers s (steps.take i)
    cases path with
    | nil =>
      obtain ⟨st, hst, hp⟩ := Option.bind_eq_some_iff.mp h
      cases hp
      refine ⟨(step before st).1, ?_, answers_step (run_active s (steps.take i)) hrenderers⟩
      rw [answerAt?, run_getElem?, hst]
      rfl
    | cons j path =>
      obtain ⟨st, hst, h⟩ := Option.bind_eq_some_iff.mp h
      obtain ⟨⟨own, inner⟩, hinner, h⟩ := Option.bind_eq_some_iff.mp h
      obtain ⟨failed, hstep⟩ := step_inner hinner before
      rw [← hrenderers] at h
      obtain ⟨answer, hanswer, hanswers⟩ := ih { before with active := own } inner h
      refine ⟨answer, ?_, hanswers⟩
      rw [answerAt?, run_getElem?, hst]
      show (match (step before st).1 with
        | .block inner _ => answerAt? inner (j :: path)
        | _ => none) = some answer
      rw [hstep]
      exact hanswer

/-- **Active options are lexically scoped.**  In every session, the step at every place has the
answer that the place says: options that it does not name itself are those of the last change
before it in the innermost block or thread around it, or the ones that this starts with.  And after
every block or thread, failed or not, the options in force are those before it. -/
theorem answers_lexically (steps : List Step) (path : List Nat) {p : Place}
    (h : placeAt? Options.default [] steps path = some p) :
    (∃ answer, answerAt? (run start steps).1 path = some answer ∧ p.Answers answer) ∧
      ∀ s : Session, p.step.inner? ≠ none → (step s p.step).2.active = s.active := by
  refine ⟨answers_at start steps path h, fun s hinner => ?_⟩
  rw [step_active]
  cases hstep : p.step with
  | setOptions o => exact absurd (congrArg Step.inner? hstep) hinner
  | resetOptions => exact absurd (congrArg Step.inner? hstep) hinner
  | _ => rfl

/-- Two variables, one after the other, as data. -/
def twoReads : Json :=
  let read (name : String) : Json :=
    .object [("_type", .scalar (.str "LocalVariableRead")), ("name", .scalar (.str name))]
  .object [("_type", .scalar (.str "Statements")), ("body", .array [read "a", read "b"])]

/-- A session with a block that changes its options after it has begun; a thread in it makes a
renderer, and a block in it fails. -/
def scopedSession : List Step :=
  [.setOptions { spaceAfterKeywords := true },
    .within { stripComments := false }
      [.setOptions { insertSeparators := false },
        .inThread [.setOptions { stripBlankLines := false }, .makeRenderer "r" none],
        .within Options.default [.resetOptions] true,
        .renderWith "r" twoReads] false,
    .getOptions]

/-- The renderer made in the thread is used with the options that the block around its use has set,
and after the block the options are back. -/
theorem answers_lexically_scoped :
    answerAt? (run start scopedSession).1 [1, 3] =
        some (renderData { insertSeparators := false } twoReads) ∧
      renderData { insertSeparators := false } twoReads = .text "a\nb" ∧
      answerAt? (run start scopedSession).1 [2] =
        some (.options { spaceAfterKeywords := true }) := by
  obtain ⟨⟨used, hused, rfl⟩, _⟩ := answers_lexically scopedSession [1, 3] rfl
  obtain ⟨⟨shown, hshown, rfl⟩, _⟩ := answers_lexically scopedSession [2] rfl
  exact ⟨hused, rfl, hshown⟩

end Session
end TerseRuby
