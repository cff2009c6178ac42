import TerseRuby.Proofs.Acceptance.Total

/-!
# Calls whose parts can be written

A call is written in one of six forms, and each form writes the receiver, the arguments and the
block by rules of its own.  What can be written by itself, as a receiver, as an argument or as a
block, can also be written in the form that is found for the call, with one exception.  An
assignment to an indexed place takes the last argument for a value, whatever it is, and values that
are spread out cannot be assigned: `a[*b]=c` has a text, but `a.[]=(*b)`, which has one argument,
is refused.  The other forms that have room for a single value look at the argument first, and leave
all else to the form of a name.

`Rules.call_renders_iff` says that this is the only exception, for all names, arguments and blocks,
and in all runs.
-/

set_option autoImplicit false

namespace TerseRuby

/-! ## What is decided, and was written once -/

theorem Verdict.Decides.accepted_of {α : Type} {v : Verdict false} {Q : α → Prop}
    {e : Except Fault α} (h : v.Decides Q e) (hv : v.accepts) :
    (yes : Verdict true).Decides Q e := by
  rcases h with ⟨he, _, hq⟩ | ⟨_, hno⟩
  · exact .accepted he trivial hq
  · exact absurd hv hno

namespace Writer

variable {α : Type} {Q : α → Prop}

theorem Decided.accepts_of_succeeds {v : Verdict false} {w : Writer α} (h : w.Decided v Q)
    (hw : w.Succeeds) : v.accepts := by
  obtain ⟨s, locals, out, hrun⟩ := hw
  exact (h s locals).accepts_iff.mpr ⟨out, hrun⟩

/-- If one run succeeds, then all do. -/
theorem IsDecided.strictly {w : Writer α} (h : w.IsDecided false Q) (hw : w.Succeeds) :
    w.IsDecided true Q := by
  obtain ⟨v, h⟩ := h
  exact ⟨.yes, fun s locals => (h s locals).accepted_of (h.accepts_of_succeeds hw)⟩

theorem Drafts.strictly {w : Writer Draft} {firm : Bool} (h : w.Drafts false firm)
    (hw : w.built.Succeeds) : w.Drafts true firm := by
  obtain ⟨v, u, h⟩ := h
  have hboth : v.accepts ∧ u.accepts :=
    (h.bind fun d hd => decided_liftM hd : w.built.Decided (v.and u) _).accepts_of_succeeds hw
  refine ⟨.yes, .yes, fun s locals => ?_⟩
  exact ((h s locals).accepted_of hboth.1).mono fun out hout => hout.accepted_of hboth.2

/-- All runs of what is strictly decided succeed. -/
theorem IsDecided.exists_run {w : Writer α} (h : w.IsDecided true Q) (s : Setting)
    (locals : Locals) : ∃ out, (w.run s).run locals = .ok out := by
  obtain ⟨v, h⟩ := h
  exact (h s locals).accepts_iff.mp (v.of_strict rfl)

end Writer

namespace Value

/-- What can be written as an argument and is no spread can be written as an expression. -/
theorem succeeds_of_argument {v : Value} (h : v.inGroup Kind.isSpread = false)
    (hargument : (v.rendition.text .argument).Succeeds) :
    (v.rendition.text .expression).Succeeds := by
  have hwrite : (v.rendition.write .argument).Succeeds := hargument.of_bind.1
  rw [write_argument h, map_eq_pure_bind] at hwrite
  exact hwrite.of_bind.1.of_bind.1

/-- A spread is no expression. -/
theorem not_succeeds_of_isSpread {v : Value} (h : v.inGroup Kind.isSpread = true) :
    ¬ (v.rendition.text .expression).Succeeds := by
  intro htext
  have hwrite : (v.rendition.write .expression).Succeeds := htext.of_bind.1
  cases v with
  | node kind field =>
    cases kind
    case splat | blockArgument | keywordHash | doubleSplat =>
      exact Writer.not_succeeds_throw _ hwrite
    all_goals cases h
  | _ => cases h

end Value

/-- What was once written as an expression is always written as one. -/
theorem Rendition.Judged.expressible_of_succeeds {r : Rendition} (h : r.Judged false)
    (htext : (r.text .expression).Succeeds) :
    r.Expressible true (!r.value.isKind .statements) :=
  ⟨(h.expressible rfl).text.strictly htext, h.typed⟩

/-! ## The parts of a call -/

namespace CallShape

/-- The parts of a call can be written, each by itself. -/
structure PartsSucceed (field : Field → Value) : Prop where
  /-- The receiver. -/
  receiver : ((field .receiver).rendition.text .expression).Succeeds
  /-- The arguments. -/
  arguments : ∀ e ∈ (field .arguments).elements, (e.rendition.text .argument).Succeeds
  /-- A block that is attached. -/
  block : (field .block).isKind .block = true → ((field .block).rendition.text .block).Succeeds
  /-- A block that is passed. -/
  blockArgument : (field .block).isKind .blockArgument = true →
    ((field .block).rendition.text .argument).Succeeds

/-- Whether a call assigns a spread to an indexed place. -/
def assignsSpread (field : Field → Value) : Bool :=
  (field .name).text? == some "[]=" && isUnadorned field &&
    (field .arguments).elements.getLast?.any (·.inGroup Kind.isSpread)

variable {field : Field → Value}

/-- A call that assigns to an indexed place has the form for that, whatever it assigns. -/
theorem of_eq_indexAssign (hreceiver : (field .receiver).isNull = false)
    (h : isIndexAssign field = .ok true) : of field = .ok .indexAssign := by
  have hname := name_of_isIndexAssign h
  have htext : (field .name).isText = true := by rw [Value.isText, hname, Option.isSome_some]
  have hvalue : field .name = .scalar (.str "[]=") := by
    obtain ⟨text, hfield⟩ := Value.exists_of_isText htext
    rw [hfield] at hname ⊢
    rw [Option.some_inj.mp hname]
  have hunary : unary? field = .ok none := by
    rw [unary?, hvalue]
    rfl
  have hbinary : binary? field = .ok none := by
    rw [binary?, hvalue]
    rfl
  rw [of, hreceiver, hunary, hbinary, h]
  rfl

theorem isIndexAssign_of_assignsSpread (hsequence : (field .arguments).isSequence = true)
    (h : assignsSpread field = true) : isIndexAssign field = .ok true := by
  obtain ⟨items, hitems⟩ := Value.exists_of_isSequence hsequence
  simp only [assignsSpread, Bool.and_eq_true, beq_iff_eq] at h
  obtain ⟨⟨hname, hunadorned⟩, hlast⟩ := h
  rw [hitems] at hlast
  have hne : items ≠ [] := by
    rintro rfl
    cases hlast
  rw [isIndexAssign, hname, hitems, hunadorned]
  show Except.ok (items.length != 0 && true) = .ok true
  simpa using hne

/-- Of the calls that assign to an indexed place, the others assign a single value. -/
theorem not_isSpread_of_isIndexAssign (h : isIndexAssign field = .ok true)
    (hspread : assignsSpread field = false) {e : Value}
    (he : (field .arguments).elements.getLast? = some e) : e.inGroup Kind.isSpread = false := by
  have hname := name_of_isIndexAssign h
  have hunadorned := (of_isIndexAssign h).2
  simpa [assignsSpread, hname, hunadorned, he] using hspread

end CallShape

/-! ## Calls -/

namespace Rules

open CallShape (PartsSucceed assignsSpread)

variable {field : Field → Value}

/-- A call is written if its parts can be, unless it assigns a spread. -/
theorem call_drafts_of_parts (htyped : (Value.node .call field).isTypedTree = true)
    (h : PartsSucceed field) (hspread : assignsSpread field = false) :
    (call fun f => (field f).rendition).Drafts true true := by
  have hfields := Value.isTyped_of_isTypedTree htyped
  have hname : (field .name).isName = true := Value.isTyped_position hfields .name rfl
  have hsequence : (field .arguments).isSequence = true :=
    Value.isTyped_position hfields .arguments rfl
  have hreceiver : (!(field .receiver).isKind .statements) = true :=
    Value.isTyped_position hfields .receiver rfl
  have hjudged (f : Field) (hown : Kind.call.owns f = true) : (field f).rendition.Judged false :=
    Value.rendition_judged (Value.isTypedTree_field htyped f hown) (by simp) (by simp)
  have hargument (x : Rendition) (hx : x ∈ (field .arguments).rendition.elements) :
      ∃ e ∈ (field .arguments).elements, x = e.rendition.toRendition := by
    rw [Value.rendition_elements_eq] at hx
    obtain ⟨e, he, rfl⟩ := List.mem_map.mp hx
    exact ⟨e, he, rfl⟩
  have hvalue (e : Value) (he : e ∈ (field .arguments).elements)
      (hsingle : e.inGroup Kind.isSpread = false) :
      e.rendition.Expressible true false := by
    have hmem : e.rendition.toRendition ∈ (field .arguments).rendition.elements := by
      rw [Value.rendition_elements_eq]
      exact List.mem_map_of_mem he
    exact (((hjudged .arguments rfl).elements _ hmem).expressible_of_succeeds
      (Value.succeeds_of_argument hsingle (h.arguments e he))).loosen
  refine call_drafts ?_ (fun _ => ?_) ?_ ⟨fun x hx => ?_, fun hblock => ?_⟩ ?_
    (fun hsingle x hx => ?_) fun hindex x hx => ?_
  · rwa [Value.rendition_value]
  · have hexpressible := (hjudged .receiver rfl).whole.expressible_of_succeeds h.receiver
    rwa [Value.rendition_value, hreceiver] at hexpressible
  · rwa [Value.rendition_value]
  · obtain ⟨e, he, rfl⟩ := hargument x hx
    exact (((hjudged .arguments rfl).elements _ hx).text rfl).strictly (h.arguments e he)
  · rw [Value.rendition_value] at hblock
    exact ((hjudged .block rfl).whole.text rfl).strictly (h.blockArgument hblock)
  · refine attachedBlock_drafts fun hblock => ?_
    rw [Value.rendition_value] at hblock
    refine ((hjudged .block rfl).whole.write .block ?_).loosen.strictly (h.block hblock)
    rw [Value.rendition_value]
    exact hblock
  · obtain ⟨e, he, rfl⟩ := hargument x hx
    rw [Value.rendition_value] at hsingle
    exact hvalue e he (CallShape.not_isSpread_of_isSingleValue hsingle he)
  · obtain ⟨e, he, rfl⟩ := hargument x (List.mem_of_getLast? hx)
    simp only [Value.rendition_value] at hindex
    rw [Value.rendition_elements_eq, List.getLast?_map, Option.map_eq_some_iff] at hx
    obtain ⟨e', he', hsame⟩ := hx
    obtain rfl : e' = e := by rw [← Value.rendition_value e', hsame, Value.rendition_value]
    exact hvalue e' he (CallShape.not_isSpread_of_isIndexAssign hindex hspread he')

/-- A call that assigns a spread is refused. -/
theorem not_succeeds_of_assignsSpread (htyped : (Value.node .call field).isTypedTree = true)
    (hreceiver : (field .receiver).isNull = false) (h : assignsSpread field = true) :
    ¬ (call fun f => (field f).rendition).Succeeds := by
  have hsequence : (field .arguments).isSequence = true :=
    Value.isTyped_position (Value.isTyped_of_isTypedTree htyped) .arguments rfl
  have hindex := CallShape.isIndexAssign_of_assignsSpread hsequence h
  have hshape := CallShape.of_eq_indexAssign hreceiver hindex
  obtain ⟨e, hlast, hspread⟩ := (Option.any_eq_true _ _).mp (Bool.and_eq_true_iff.mp h).2
  have helements :
      (field .arguments).rendition.elements.getLast? = some e.rendition.toRendition := by
    rw [Value.rendition_elements_eq, List.getLast?_map, hlast]
    rfl
  have hcall : (call fun f => (field f).rendition) = indexAssignment (fun f => (field f).rendition)
      (field .arguments).rendition.elements.dropLast e.rendition.toRendition := by
    rw [call]
    simp only [Value.rendition_value, hshape, helements]
    rfl
  rw [hcall]
  intro hassignment
  obtain ⟨_, _, hkeys⟩ := hassignment.of_bind
  obtain ⟨_, _, hvalue⟩ := hkeys.of_bind
  exact Value.not_succeeds_of_isSpread hspread hvalue.of_bind.1.of_bind.1.of_bind.1

/-- **A call is written, in every run, exactly if it assigns no spread**, given that its receiver,
its arguments and its block can be written by themselves. -/
theorem call_renders_iff (htyped : (Value.node .call field).isTypedTree = true)
    (hreceiver : (field .receiver).isNull = false) (h : PartsSucceed field) (s : Setting)
    (locals : Locals) :
    (∃ out, (((Value.node .call field).rendition.text .expression).run s).run locals = .ok out) ↔
      assignsSpread field = false := by
  constructor
  · rintro ⟨out, hrun⟩
    rw [Bool.eq_false_iff]
    intro hspread
    have htext : ((call fun f => (field f).rendition).built).Succeeds := ⟨s, locals, out, hrun⟩
    exact not_succeeds_of_assignsSpread htyped hreceiver hspread htext.of_bind.1
  · intro hspread
    exact (call_drafts_of_parts htyped h hspread).built.exists_run s locals

/-- The fields of a call of `[]=` with the one argument `*b`, whose receiver `a` may be absent or
not. -/
def spreadFields (safe : Bool) : Field → Value
  | .receiver => .ofFields .localRead [(.name, .scalar (.str "a"))]
  | .safeNavigation => .scalar (.bool safe)
  | .name => .scalar (.str "[]=")
  | .arguments => .seq
    [.ofFields .splat [(.expression, .ofFields .localRead [(.name, .scalar (.str "b"))])]]
  | _ => .null

theorem partsSucceed_spreadFields (safe : Bool) : PartsSucceed (spreadFields safe) := by
  refine ⟨⟨.ofOptions .default, [], _, rfl⟩, ?_, ?_, ?_⟩
  · intro e he
    obtain rfl := List.mem_singleton.mp he
    exact ⟨.ofOptions .default, [], _, rfl⟩
  · intro hblock
    cases hblock
  · intro hblock
    cases hblock

theorem call_renders_iff_safe :
    (Value.node .call (spreadFields true)).isTypedTree = true ∧ PartsSucceed (spreadFields true) ∧
      (∀ s locals, ∃ out, (((Value.node .call (spreadFields true)).rendition.text
        .expression).run s).run locals = .ok out) ∧
      render .default (.node .call (spreadFields true)) = .ok "a&.[]=(*b)" :=
  ⟨rfl, partsSucceed_spreadFields true, fun s locals =>
    (call_renders_iff rfl rfl (partsSucceed_spreadFields true) s locals).mpr rfl, rfl⟩

/-- The receiver and the argument of `a.[]=(*b)` can be written, and the call cannot. -/
theorem render_assigned_spread :
    (Value.node .call (spreadFields false)).isTypedTree = true ∧
      PartsSucceed (spreadFields false) ∧
      render .default (.node .call (spreadFields false)) =
        .error (.unsupported "Splat" (some .strayElement)) :=
  ⟨rfl, partsSucceed_spreadFields false, rfl⟩

end Rules
end TerseRuby
