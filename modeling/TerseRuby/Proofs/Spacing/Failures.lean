import TerseRuby.Proofs.Tree.Shape

/-!
# Failures that no option changes

A failure may tell how many pieces of a draft stand before the one that is no text, and a blank that
may be left out counts among them if it is written.  All other failures are the same under all
options.  `Settled` says of a computation that it has only such failures; it holds of every question
that the rules ask about a tree, and of every literal.
-/

set_option autoImplicit false

namespace TerseRuby

/-- A failure that is the same under all options. -/
def Fault.IsSettled (fault : Fault) : Prop := ∀ o, fault.settle o = fault

/-- A computation with failures that are the same under all options. -/
def Settled {α : Type} (e : Except Fault α) : Prop := ∀ fault, e = .error fault → fault.IsSettled

section Settled

variable {α β : Type} {e : Except Fault α}

theorem settled_ok (a : α) : Settled (.ok a : Except Fault α) := by
  intro fault h
  cases h

theorem settled_error {fault : Fault} (h : fault.IsSettled) :
    Settled (.error fault : Except Fault α) := by
  intro fault' h'
  cases h'
  exact h

theorem Settled.bind {f : α → Except Fault β} (he : Settled e) (hf : ∀ a, Settled (f a)) :
    Settled (e >>= f) := by
  cases e with
  | error fault => exact settled_error (he fault rfl)
  | ok a => exact hf a

theorem Settled.map (f : α → β) (he : Settled e) : Settled (f <$> e) := by
  cases e with
  | error fault => exact settled_error (he fault rfl)
  | ok a => exact settled_ok (f a)

end Settled

/-! ## Values -/

namespace Value

theorem settled_sequence (v : Value) : Settled v.sequence := by
  rw [sequence]
  split
  · exact settled_ok _
  · exact settled_error fun _ => rfl

theorem settled_length (v : Value) : Settled v.length := by
  rw [length]
  split
  · exact settled_ok _
  · exact settled_error fun _ => rfl

theorem settled_elementAt (v : Value) (place : Nat) : Settled (v.elementAt place) := by
  unfold elementAt
  split
  · exact settled_error fun _ => rfl
  · exact settled_ok _

theorem settled_checkKey (v : Value) : Settled v.checkKey := by
  rw [checkKey]
  split
  · exact settled_ok _
  · exact settled_error fun _ => rfl

theorem settled_shown (v : Value) : Settled v.shown := by
  obtain hshown | hshown := v.shown_cases
  · rw [hshown]
    exact settled_ok _
  · rw [hshown]
    exact settled_error fun _ => rfl

theorem settled_bodyStatements (v : Value) : Settled v.bodyStatements := by
  unfold bodyStatements
  split
  · exact settled_ok _
  · exact settled_sequence _
  · exact settled_ok _

end Value

/-! ## The form of a call -/

namespace CallShape

open Value (settled_checkKey settled_length settled_elementAt)

variable (field : Field → Value)

theorem settled_methodOperator? (group : Operator → Bool) (name : Value) :
    Settled (methodOperator? group name) :=
  (settled_checkKey name).bind fun _ => settled_ok _

theorem settled_isSingleValue (arguments : Value) : Settled (isSingleValue arguments) := by
  refine (settled_length arguments).bind fun length => ?_
  split
  · exact settled_ok _
  · exact (settled_elementAt arguments 0).bind fun _ => settled_ok _

theorem settled_unary? : Settled (unary? field) :=
  (settled_methodOperator? _ _).bind fun _ => settled_ok _

theorem settled_binary? : Settled (binary? field) := by
  refine (settled_methodOperator? _ _).bind fun op => ?_
  split
  · exact settled_ok _
  · exact (settled_isSingleValue _).bind fun _ => settled_ok _

theorem settled_isIndexAssign : Settled (isIndexAssign field) := by
  rw [isIndexAssign]
  split
  · exact settled_ok _
  · exact (settled_length _).bind fun _ => settled_ok _

theorem settled_isAttributeAssign : Settled (isAttributeAssign field) := by
  rw [isAttributeAssign]
  split
  · exact settled_error fun _ => rfl
  · split
    · exact settled_ok _
    · exact (settled_isSingleValue _).bind fun _ => settled_ok _

theorem settled_of : Settled (of field) := by
  rw [of]
  split
  · exact settled_ok _
  refine (settled_unary? field).bind fun unary => ?_
  split
  · exact settled_ok _
  refine (settled_binary? field).bind fun binary => ?_
  split
  · exact settled_ok _
  refine (settled_isIndexAssign field).bind fun isIndexAssign => ?_
  split
  · exact settled_ok _
  refine (settled_isAttributeAssign field).bind fun isAttributeAssign => ?_
  split
  · exact settled_ok _
  · exact settled_ok _

end CallShape

/-! ## Operators and braces -/

namespace Value

theorem settled_signOperator? (v : Value) : Settled v.signOperator? := by
  unfold signOperator?
  split
  · split
    · exact settled_ok _
    · exact settled_error fun _ => rfl
  · exact settled_error fun _ => rfl

theorem settled_operator? (v : Value) : Settled v.operator? := by
  unfold operator?
  split
  case h_1 => exact (CallShape.settled_of _).map _
  case h_5 => split <;> exact settled_ok _
  case h_11 | h_12 => exact settled_signOperator? _
  all_goals exact settled_ok _

theorem settled_startsWithBrace (v : Value) : Settled v.startsWithBrace := by
  induction v using Value.induction with
  | node kind field ih =>
    unfold startsWithBrace
    split
    case h_2 =>
      rename_i hnode
      cases hnode
      split
      · exact settled_ok _
      · split
        · rename_i fault hunary
          exact settled_error (CallShape.settled_unary? field fault hunary)
        · exact settled_ok _
        · exact ih .receiver
    case h_3 | h_4 | h_5 | h_6 =>
      rename_i hnode
      cases hnode
      exact ih _
    all_goals exact settled_ok _
  | _ => exact settled_ok _

end Value

/-! ## Statements -/

theorem Sequence.settled_finalState (s : Setting) (body : Value) :
    Settled (finalState s body) :=
  (Value.settled_bodyStatements body).bind fun _ => settled_ok _

namespace Rules

theorem settled_onlyStatement? (s : Setting) (body : Value) : Settled (onlyStatement? s body) := by
  refine (Value.settled_bodyStatements body).bind fun statements => ?_
  split <;> exact settled_ok _

theorem settled_checkBlock (v : Value) : Settled (checkBlock v) := by
  rw [checkBlock]
  split
  · exact settled_ok _
  · exact settled_error fun _ => rfl

theorem settled_isPostfix (s : Setting) (field : Field → Value) : Settled (isPostfix s field) := by
  rw [isPostfix]
  split
  · exact settled_ok _
  refine (settled_onlyStatement? s _).bind fun statement => ?_
  split
  · exact settled_ok _
  refine (settled_checkBlock _).bind fun blockInStatement => ?_
  split
  · exact settled_ok _
  refine (settled_checkBlock _).bind fun blockInPredicate => ?_
  split <;> exact settled_ok _

theorem settled_readsAsVariable (s : Setting) (locals : Locals) (name : Value) :
    Settled (readsAsVariable s locals name) := by
  refine (Value.settled_checkKey name).bind fun _ => ?_
  split
  · exact settled_ok _
  · unfold isCapitalized
    split
    · exact settled_ok _
    · exact settled_error fun _ => rfl
    · exact settled_error fun _ => rfl

theorem settled_isOutputCall (s : Setting) (locals : Locals) (field : Field → Value) :
    Settled (isOutputCall s locals field) := by
  rw [isOutputCall]
  split
  · exact settled_ok _
  refine (Value.settled_checkKey _).bind fun _ => ?_
  split
  · exact settled_ok _
  split
  · exact settled_ok _
  refine (Value.settled_length _).bind fun length => ?_
  split
  · exact settled_ok _
  · exact (Value.settled_elementAt _ _).bind fun _ => settled_ok _

/-! ## Literals -/

theorem settled_keyLabel? (key : Value) : Settled (keyLabel? key) := by
  unfold keyLabel?
  split
  · split
    · exact settled_ok _
    · exact settled_error fun _ => rfl
  · exact settled_ok _

theorem settled_float (v : Value) : Settled (float v) := by
  unfold float
  split
  · refine Settled.bind ?_ fun _ => settled_ok _
    unfold Literal.float
    split
    · exact settled_ok _
    · split
      · split
        · exact settled_ok _
        · exact settled_error fun _ => rfl
      · exact settled_error fun _ => rfl
  · exact settled_error fun _ => rfl

theorem settled_symbol (v : Value) : Settled (symbol v) := by
  rw [symbol]
  split
  · exact settled_ok _
  · exact settled_error fun _ => rfl

end Rules

namespace Content

theorem settled_escapeElement {next : Except Fault Value} (hnext : Settled next) (v : Value) :
    Settled (escapeElement next v) := by
  refine (Value.settled_checkKey v).bind fun _ => ?_
  split
  · exact settled_error fun _ => rfl
  · split
    · refine hnext.bind fun next => ?_
      rw [escapeNumberSign]
      split
      · exact settled_ok _
      · split
        · exact settled_error fun _ => rfl
        · exact settled_ok _
    · unfold escapeText
      split
      · exact settled_ok _
      · split
        · exact settled_error fun _ => rfl
        · exact settled_ok _

theorem settled_escapeFrom (content : Value) (place : Nat) (vs : List Value) :
    Settled (escapeFrom content place vs) := by
  induction vs generalizing place with
  | nil => exact settled_ok _
  | cons v rest ih =>
    rw [escapeFrom]
    have hnext : Settled (if rest.isEmpty then .ok closing else content.elementAt (place + 1)) := by
      split
      · exact settled_ok _
      · exact Value.settled_elementAt _ _
    exact (settled_escapeElement hnext v).bind fun _ => (ih _).bind fun _ => settled_ok _

theorem settled_literal (content : Value) : Settled (literal content) := by
  rw [literal]
  split
  · exact settled_ok _
  · rw [collection]
    split
    · exact settled_error fun _ => rfl
    · refine (settled_escapeFrom _ _ _).bind fun _ => ?_
      split
      · exact settled_ok _
      · exact settled_error fun _ => rfl

end Content

/-- Parts of a string that are no text are counted without the blanks between them. -/
theorem Literal.settled_segmentsAfter {σ : Type} (p : Pending) (parts : List (Part σ)) :
    Settled (segmentsAfter p parts) := by
  have hflush (p : Pending) : Settled (p.flush : Except Fault (List (Segment σ))) := by
    rw [Pending.flush]
    split
    · refine settled_error fun o => ?_
      rw [Fault.settle]
      split <;> rfl
    · exact settled_ok _
  induction parts generalizing p with
  | nil => exact hflush p
  | cons part parts ih =>
    cases part with
    | run text => exact ih _
    | foreign typeName => exact ih _
    | slot content => exact (hflush p).bind fun _ => (ih _).bind fun _ => settled_ok _
    | other kind => exact settled_error fun _ => rfl

end TerseRuby
