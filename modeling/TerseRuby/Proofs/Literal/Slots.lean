import TerseRuby.Proofs.Literal.Scanner
import TerseRuby.Render.Literal
import Mathlib.Control.Basic

/-!
# Reading interpolated strings back

An interpolated string is read like any double-quoted literal, up to the closing quote or to where
an interpolation opens.  What stands in a slot is a program of its own, which this file does not
read: the scanner is given the texts of the slots and expects to find the next one, with its braces,
whenever an interpolation opens.

* `Scanner.interpolated` reads a literal with the given slots.  An interpolation that opens without
  a brace, one for which no text is left, and one that holds another text are all refused, so a
  reading that leaves no text unused has met an interpolation exactly at the slots.
* `Scanner.merge` is what a row of runs and slots comes down to: neighbouring runs become one, and
  empty ones are left out.
* `Value.splice_reads_back` is the result: the text of an interpolated string is read as its parts
  come down to, whatever the slots are filled with.

The induction is on the parts, with the runs that are pending.  A number sign at the end of them is
followed by another run, by the number sign of a slot or by the closing quote, and only the first of
these can make it open an interpolation; `double_escape_append` asks for no more.
-/

set_option autoImplicit false

namespace TerseRuby

/-! ## The scanner -/

namespace Scanner

/-- A part of an interpolated string as it is read. -/
inductive Item where
  /-- Characters. -/
  | run (content : List Char)
  /-- A slot with its text. -/
  | slot (text : List Char)
  deriving DecidableEq, Repr

/-- What was read of an interpolated string. -/
structure Reading where
  /-- Its parts. -/
  items : List Item
  /-- The texts of slots that no interpolation asked for. -/
  unused : List (List Char)
  /-- What comes after the closing quote. -/
  rest : List Char
  deriving DecidableEq, Repr

/-- The run that some characters make: none if there are none. -/
def runOf (content : List Char) : List Item := if content.isEmpty then [] else [.run content]

/-- What comes after a slot with the given text, if a text begins with one. -/
def takeSlot? (slot text : List Char) : Option (List Char) :=
  let whole := '\x7b' :: slot ++ ['\x7d']
  if whole.isPrefixOf text then some (text.drop whole.length) else none

/-- The inside of an interpolated string with the given slots. -/
def slotted : List (List Char) → List Char → Option Reading
  | [], text => do
    let scan ← double text
    if scan.stop = .quote then some ⟨runOf scan.content, [], scan.rest⟩ else none
  | slot :: slots, text => do
    let scan ← double text
    if scan.stop = .quote then some ⟨runOf scan.content, slot :: slots, scan.rest⟩
    else
      let reading ← slotted slots (← takeSlot? slot scan.rest)
      some { reading with items := runOf scan.content ++ .slot slot :: reading.items }

/-- An interpolated string with the given slots. -/
def interpolated (slots : List (List Char)) : List Char → Option Reading
  | '"' :: text => slotted slots text
  | _ => none

/-- Parts with neighbouring runs put together and empty ones left out. -/
def merge : List Item → List Item
  | [] => []
  | .slot text :: rest => .slot text :: merge rest
  | .run content :: rest =>
    match merge rest with
    | .run next :: rest => .run (content ++ next) :: rest
    | rest => runOf content ++ rest

/-- Two runs are as good as one. -/
theorem merge_run_run (a b : List Char) (rest : List Item) :
    merge (.run a :: .run b :: rest) = merge (.run (a ++ b) :: rest) := by
  by_cases hb : b = []
  · subst hb
    rw [List.append_nil, merge, merge, merge]
    rcases merge rest with _ | ⟨_ | _, _⟩ <;> rfl
  · have hrun : runOf b = [.run b] := by simp [runOf, hb]
    have hrun' : runOf (a ++ b) = [.run (a ++ b)] := by simp [runOf, hb]
    rw [merge, merge, merge, hrun, hrun']
    rcases merge rest with _ | ⟨_ | _, _⟩ <;> simp

@[simp] theorem merge_run_nil (rest : List Item) : merge (.run [] :: rest) = merge rest := by
  rw [merge]
  rcases merge rest with _ | ⟨_ | _, _⟩ <;> rfl

/-! ## One step of reading -/

@[simp] theorem takeSlot?_append (slot rest : List Char) :
    takeSlot? slot ('\x7b' :: (slot ++ '\x7d' :: rest)) = some rest := by
  have hprefix : ('\x7b' :: slot ++ ['\x7d']).isPrefixOf ('\x7b' :: (slot ++ '\x7d' :: rest)) := by
    rw [List.isPrefixOf_iff_prefix]
    exact ⟨rest, by simp⟩
  rw [takeSlot?, if_pos hprefix]
  simp

/-- Characters before the closing quote. -/
theorem slotted_quote (text rest : List Char) :
    slotted [] (Literal.escape ['"'] text ++ '"' :: rest) = some ⟨runOf text, [], rest⟩ := by
  rw [slotted, double_doubleQuoted]
  rfl

/-- Characters before a slot. -/
theorem slotted_slot (text slot : List Char) (slots : List (List Char)) (rest : List Char) :
    slotted (slot :: slots)
        (Literal.escape ['#'] text ++ '#' :: '\x7b' :: (slot ++ '\x7d' :: rest)) =
      (slotted slots rest).map fun reading =>
        { reading with items := runOf text ++ .slot slot :: reading.items } := by
  have hdouble : double (Literal.escape ['#'] text ++ '#' :: '\x7b' :: (slot ++ '\x7d' :: rest)) =
      some ⟨text, .interpolation, '\x7b' :: (slot ++ '\x7d' :: rest)⟩ := by
    -- the number sign of the slot opens nothing together with one at the end of the run
    rw [double_escape_append _ _ _ (by simp [opens]), double, if_pos (by simp [opens])]
    simp [Scan.after]
  simp only [slotted, hdouble, Option.bind_eq_bind, Option.bind_some, takeSlot?_append,
    reduceCtorEq, if_false]
  cases slotted slots rest <;> rfl

end Scanner

/-! ## The text of segments, given those of the slots -/

namespace Literal

universe u

variable {σ : Type u}

/-- The slots among some segments. -/
def slotsOf : List (Segment σ) → List σ
  | [] => []
  | .run _ :: rest => slotsOf rest
  | .slot content :: rest => content :: slotsOf rest

/-- The text of segments whose slots are filled with the given texts. -/
def filled : List (Segment σ) → List (List Char) → List Char
  | [], _ => []
  | .run text :: rest, texts => escape (afterRun rest) text ++ filled rest texts
  | .slot _ :: rest, texts =>
    '#' :: '\x7b' :: (texts.headD [] ++ '\x7d' :: filled rest texts.tail)

/-- Every slot is written once, in order, and the text is made of what comes out. -/
theorem spliceSegments_eq {m : Type → Type} [Monad m] [LawfulMonad m] (write : σ → m (List Char))
    (segments : List (Segment σ)) :
    spliceSegments id write segments = filled segments <$> (slotsOf segments).mapM write := by
  induction segments with
  | nil => simp [spliceSegments, slotsOf, filled]
  | cons segment rest ih =>
    cases segment with
    | run text => simp [spliceSegments, slotsOf, filled, ih]
    | slot content => simp [spliceSegments, slotsOf, filled, ih, List.mapM_cons]

end Literal

/-! ## Interpolated strings -/

namespace Value

open Scanner
open Literal hiding splice

/-- A part of an interpolated string: a string with some text, or a slot. -/
inductive IsStringPart : Value → Prop where
  | run (field : Field → Value) (text : String) (content : field .content = .scalar (.str text)) :
      IsStringPart (.node .string field)
  | slot (field : Field → Value) : IsStringPart (.node .embedded field)

/-- The statements of the slots among some parts, in order. -/
def slotStatements (parts : List Value) : List Value :=
  (parts.filter (isKind .embedded)).map fun part => part.field .statements

/-- What the parts of an interpolated string stand for if the slots have the given texts. -/
def stringItems : List Value → List (List Char) → List Item
  | [], _ => []
  | part :: rest, texts =>
    if part.isKind .embedded then .slot (texts.headD []) :: stringItems rest texts.tail
    else .run ((part.field .content).text?.getD "").toList :: stringItems rest texts

/-- What is pending is text, and there is none unless there was a run. -/
structure IsPending (p : Pending) : Prop where
  /-- Nothing else stood in the place of a run. -/
  foreign : p.foreign = none
  /-- Characters come from runs. -/
  text : p.runs = 0 → p.text = []

/-- The segment that pending runs make, if there were any. -/
def pendingRun (p : Pending) : List (Segment Value) := if p.runs == 0 then [] else [.run p.text]

theorem IsPending.flush {p : Pending} (h : IsPending p) : p.flush = .ok (pendingRun p) := by
  rw [Pending.flush, h.foreign, pendingRun]

theorem slotsOf_pendingRun_append (p : Pending) (rest : List (Segment Value)) :
    slotsOf (pendingRun p ++ rest) = slotsOf rest := by
  rw [pendingRun]
  split <;> rfl

/-- The text of the pending runs before a slot or the end. -/
theorem IsPending.filled_append {p : Pending} (h : IsPending p) (rest : List (Segment Value))
    (texts : List (List Char)) :
    filled (pendingRun p ++ rest) texts =
      escape (afterRun rest) p.text ++ filled rest texts := by
  by_cases hruns : p.runs = 0
  · rw [h.text hruns]
    simp [pendingRun, hruns, escape]
  · simp [pendingRun, hruns, filled]

/-- The parts after some pending runs are settled, the slots are those of the parts, and the text is
read as what they come down to. -/
theorem exists_segmentsAfter {parts : List Value} (hparts : ∀ part ∈ parts, IsStringPart part)
    {p : Pending} (hp : IsPending p) :
    ∃ segments, segmentsAfter p (parts.map (Rules.stringPart id)) = .ok segments ∧
      (slotsOf segments).map (fun slot => slot.field .statements) = slotStatements parts ∧
      ∀ texts : List (List Char), texts.length = (slotStatements parts).length → ∀ rest,
        slotted texts (filled segments texts ++ '"' :: rest) =
          some ⟨merge (.run p.text :: stringItems parts texts), [], rest⟩ := by
  induction parts generalizing p with
  | nil =>
    refine ⟨pendingRun p, hp.flush, ?_, fun texts hlength rest => ?_⟩
    · have hslots := slotsOf_pendingRun_append p []
      rw [List.append_nil] at hslots
      rw [hslots]
      rfl
    · have hnil : texts = [] := List.length_eq_zero_iff.mp hlength
      have htext := hp.filled_append [] texts
      rw [List.append_nil, filled, List.append_nil] at htext
      rw [htext, hnil, afterRun, List.isEmpty_nil, if_pos rfl, slotted_quote]
      simp [stringItems, merge]
  | cons part parts ih =>
    obtain ⟨hpart, hothers⟩ := List.forall_mem_cons.mp hparts
    cases hpart with
    | run field text content =>
      have hadd : IsPending (p.add text.toList) :=
        ⟨hp.foreign, fun hruns => absurd hruns (Nat.succ_ne_zero _)⟩
      obtain ⟨segments, hsegments, hslots, hread⟩ := ih hothers hadd
      have hstring : Rules.stringPart id (.node .string field) = .run text.toList := by
        simp [Rules.stringPart, content, text?]
      refine ⟨segments, ?_, hslots, fun texts hlength rest => ?_⟩
      · rw [List.map_cons, hstring, segmentsAfter, hsegments]
      · have hitems : stringItems (.node .string field :: parts) texts =
            .run text.toList :: stringItems parts texts := by
          have hcontent : (Value.node .string field).field .content = .scalar (.str text) := content
          rw [stringItems, hcontent]
          rfl
        rw [hread texts hlength rest, hitems, merge_run_run]
        rfl
    | slot field =>
      obtain ⟨segments, hsegments, hslots, hread⟩ := ih (p := .empty) hothers ⟨rfl, fun _ => rfl⟩
      refine ⟨pendingRun p ++ .slot (.node .embedded field) :: segments, ?_, ?_,
        fun texts hlength rest => ?_⟩
      · have hstring : Rules.stringPart id (.node .embedded field) =
            .slot (.node .embedded field) := rfl
        rw [List.map_cons, hstring, segmentsAfter, hp.flush, hsegments]
        rfl
      · have hcons : slotStatements (.node .embedded field :: parts) =
            field .statements :: slotStatements parts := rfl
        rw [hcons, ← hslots, slotsOf_pendingRun_append]
        rfl
      · obtain ⟨slot, texts, rfl⟩ := List.exists_cons_of_length_eq_add_one hlength
        have hitems : stringItems (.node .embedded field :: parts) (slot :: texts) =
            .slot slot :: stringItems parts texts := rfl
        have hfilled : filled (.slot (.node .embedded field) :: segments) (slot :: texts) =
            '#' :: '\x7b' :: (slot ++ '\x7d' :: filled segments texts) := rfl
        have hrest := hread texts (Nat.succ_inj.mp hlength) rest
        rw [Pending.empty, merge_run_nil] at hrest
        rw [hp.filled_append, hfilled, afterRun, List.isEmpty_cons, if_neg Bool.false_ne_true,
          List.append_assoc, List.cons_append, List.cons_append, List.append_assoc,
          List.cons_append, slotted_slot, hrest, hitems]
        rfl

/-- **An interpolated string reads back.**  Its slots are written once each, in order, in whatever
way the writer does it, and the text is made of what comes out.  With any texts for the slots the
scanner reads the literal to its end, whatever comes after it, finds an interpolation at every slot
and nowhere else, and has read the parts: the slots in order, and between them the characters of the
runs put together. -/
theorem splice_reads_back {m : Type → Type} [Monad m] [LawfulMonad m]
    (write : Value → m (List Char)) (field : Field → Value) {parts : List Value}
    (hfield : field .parts = .seq parts) (hparts : ∀ part ∈ parts, IsStringPart part) :
    ∃ text : List (List Char) → List Char,
      splice write (.node .interpolated field) =
        .ok (text <$> (slotStatements parts).mapM write) ∧
      ∀ slots : List (List Char), slots.length = (slotStatements parts).length → ∀ rest,
        interpolated slots (text slots ++ rest) =
          some ⟨merge (stringItems parts slots), [], rest⟩ := by
  obtain ⟨segments, hsegments, hslots, hread⟩ :=
    exists_segmentsAfter (p := .empty) hparts ⟨rfl, fun _ => rfl⟩
  refine ⟨fun texts => '"' :: filled segments texts ++ ['"'], ?_, fun slots hlength rest => ?_⟩
  · have hsequence : ((Value.node .interpolated field).field .parts).sequence = .ok parts := by
      change (field .parts).sequence = .ok parts
      rw [hfield]
      rfl
    have htext : Literal.splice id (fun slot => write (slot.field .statements)) segments =
        (fun texts => '"' :: filled segments texts ++ ['"']) <$>
          (slotStatements parts).mapM write := by
      rw [← hslots, List.mapM_map, Literal.splice, spliceSegments_eq]
      simp [Function.comp_def]
    rw [splice, hsequence]
    change (segmentsAfter .empty (parts.map (Rules.stringPart id)) >>= fun segments =>
      Except.ok (Literal.splice id (fun slot => write (slot.field .statements)) segments)) = _
    rw [hsegments, ← htext]
    rfl
  · have hrest := hread slots hlength rest
    rw [Pending.empty, merge_run_nil] at hrest
    rw [List.append_assoc, List.cons_append, interpolated, List.singleton_append, hrest]

/-- Runs that would open an interpolation only together, and one that ends before a slot. -/
def signParts : List Value :=
  [ofFields .string [(.content, .scalar (.str "a#"))],
   ofFields .string [(.content, .scalar (.str "\x7bb\x7d\""))], ofFields .embedded [],
   ofFields .string [(.content, .scalar (.str "#"))], ofFields .embedded [],
   ofFields .string [(.content, .scalar (.str ""))]]

theorem isStringPart_of_mem_signParts : ∀ part ∈ signParts, IsStringPart part := by
  simp only [signParts, List.forall_mem_cons]
  exact ⟨.run _ _ rfl, .run _ _ rfl, .slot _, .run _ _ rfl, .slot _, .run _ _ rfl,
    List.forall_mem_nil _⟩

theorem splice_reads_back_signs :
    ∃ text, splice (m := Id) (fun _ => ['"', '\x7d']) (ofFields .interpolated
        [(.parts, .seq signParts)]) = .ok text ∧
      interpolated [['"', '\x7d'], ['"', '\x7d']] text =
        some ⟨[.run "a#\x7bb\x7d\"".toList, .slot ['"', '\x7d'], .run ['#'],
          .slot ['"', '\x7d']], [], []⟩ := by
  obtain ⟨text, hsplice, hread⟩ := splice_reads_back (m := Id) (fun _ => ['"', '\x7d'])
    (fun f => (List.lookup f [(.parts, .seq signParts)]).getD (Kind.interpolated.defaultOf f)) rfl
    isStringPart_of_mem_signParts
  have htext := hread [['"', '\x7d'], ['"', '\x7d']] rfl []
  rw [List.append_nil] at htext
  exact ⟨_, hsplice, htext⟩

end Value
end TerseRuby
