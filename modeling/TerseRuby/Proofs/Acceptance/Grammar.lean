import TerseRuby.Proofs.Locals.Declared
import TerseRuby.Proofs.Spacing.Parts

/-!
# Typed trees and grammatical trees

The fields of a tree are not checked when it is read, and two things can be asked of them.

In a *typed* tree the fields that hold no nodes hold what they are declared to: a sequence where
there are several parts, texts and numbers in the leaves, and names that are not empty.  Where a
node is expected there may be anything, of any kind or none; only a sequence of statements may not
be an expression (`Value.isTypedTree`).

In a *grammatical* tree every part is also of a kind that can play its role (`Value.canPlay`), and
so the tree could be one of a program (`Value.isGrammaticalFile`).

Both are read off one table, `Kind.position`, which says for every kind and field what stands there.
A typed tree is not yet one that can be written.  But the questions that the rules ask before they
write anything have answers there, and those are the lemmas `isAnswered_…`.
-/

set_option autoImplicit false

namespace TerseRuby

/-! ## Which values can play a role -/

/-- The kinds of nodes that are expressions. -/
def Kind.isExpression : Kind → Bool
  | .statements | .program | .requiredParameter | .optionalParameter | .restParameter
  | .keywordParameter | .keywordRestParameter | .blockParameter | .parameters | .elseBranch
  | .whenClause | .rescueClause | .ensureClause | .block | .blockArgument | .embedded | .splat
  | .pair | .doubleSplat | .keywordHash | .comment | .blankLine => false
  | _ => true

namespace Value

/-- Whether a value can play a role in a program. -/
def canPlay (v : Value) : Role → Bool
  | .expression | .statement => v.inGroup Kind.isExpression
  | .body _ =>
    v.isNull || v.isKind .statements || v.inGroup fun kind => kind.isExpression || kind.isTrivia
  | .argument => v.inGroup fun kind => kind.isExpression || kind.isSpread
  | .hashElement => v.isKind .pair || v.isKind .doubleSplat
  | .whenClause => v.isKind .whenClause
  | .rescueClause => v.isKind .rescueClause
  | .elseBranch => v.isNull || v.isKind .elseBranch
  | .alternate => v.isNull || v.isKind .elseBranch || v.isKind .ifThen
  | .ensureClause => v.isKind .ensureClause
  | .parameters => v.isKind .parameters
  | .parameter _ => v.inGroup Kind.isParameter
  | .optionalParameter => v.isKind .optionalParameter
  | .keywordParameter => v.isKind .keywordParameter
  | .slot => v.isKind .embedded
  | .loopVariable =>
    v.isKind .localRead || v.isKind .localWrite || v.isKind .instanceRead || v.isKind .globalRead
  | .block => v.isKind .block

/-- Whether a value is a sequence. -/
def isSequence : Value → Bool
  | .seq _ => true
  | _ => false

/-- Whether a value is a whole number. -/
def isWhole : Value → Bool
  | .scalar s => s.whole?.isSome
  | _ => false

/-- Whether a value is a floating-point number. -/
def isDouble : Value → Bool
  | .scalar (.float _) => true
  | _ => false

/-- Whether a value is a text. -/
def isText (v : Value) : Bool := v.text?.isSome

/-- Whether a value is a text, or nothing. -/
def isOptionalText (v : Value) : Bool := v.isNull || v.isText

end Value

/-! ## Positions -/

/-- What stands in a field. -/
inductive Position where
  /-- A part that plays some role. -/
  | one (role : Role)
  /-- A part that plays some role, or nothing. -/
  | optional (role : Role)
  /-- A sequence of parts that play some role. -/
  | each (role : Role)
  /-- Such a sequence, or nothing. -/
  | optionalEach (role : Role)
  /-- A sequence of statements, comments and blank lines. -/
  | statements
  /-- A sequence of runs and slots of a string. -/
  | stringParts
  /-- A name. -/
  | name
  /-- A name, or nothing. -/
  | optionalName
  /-- An operator. -/
  | operator
  /-- The variable that an exception is bound to, or nothing. -/
  | capture
  /-- A text. -/
  | text
  /-- A whole number. -/
  | whole
  /-- A floating-point number. -/
  | double
  /-- Anything: a truth value, a block that may be attached or not, or the location. -/
  | anything
  deriving DecidableEq, Repr

/-- What stands in a field of a node of the given kind. -/
def Kind.position (kind : Kind) : Field → Position
  | .location | .safeNavigation | .keyword | .exclusive => .anything
  | .name =>
    match kind with
    | .restParameter | .keywordRestParameter | .blockParameter => .optionalName
    | _ => .name
  | .operator => .operator
  | .reference => .capture
  | .content | .text => .text
  | .value =>
    match kind with
    | .integer => .whole
    | .float => .double
    | .symbol => .text
    | .optionalParameter | .pair => .one .argument
    | .keywordParameter => .optional .argument
    | .doubleSplat => .optional .expression
    | _ => .one .expression
  | .body => if kind == .statements then .statements else .one (.body false)
  | .statements => .one (.body (kind == .program))
  | .requireds | .posts => .each (.parameter "")
  | .optionals => .each .optionalParameter
  | .keywords => .each .keywordParameter
  | .rest => .optional (.parameter "*")
  | .keywordRest => .optional (.parameter "**")
  | .block => if kind == .parameters then .optional (.parameter "&") else .anything
  | .parameters => .optional .parameters
  | .receiver | .superclass | .parent => .optional .expression
  | .constantPath | .collection | .target => .one .expression
  | .expression =>
    if kind == .splat || kind == .blockArgument then .optional .expression else .one .expression
  | .predicate => if kind == .caseOf then .optional .expression else .one .expression
  | .left | .right => if kind == .range then .optional .expression else .one .expression
  | .alternate => if kind == .ifThen then .one .alternate else .one .elseBranch
  | .elseClause => .one .elseBranch
  | .ensureClause => .optional .ensureClause
  | .index => .one .loopVariable
  | .conditions => if kind == .whenClause then .each .argument else .each .whenClause
  | .exceptions => .each .argument
  | .rescueClauses => .each .rescueClause
  | .arguments => if kind == .superCall then .optionalEach .argument else .each .argument
  | .elements => if kind == .array then .each .argument else .each .hashElement
  | .parts => .stringParts
  | .key => .one .argument

theorem Kind.position_name (kind : Kind) :
    kind.position .name = .name ∨ kind.position .name = .optionalName := by
  cases kind <;> decide

theorem Kind.has_name_of_isParameter {kind : Kind} (h : kind.isParameter = true) :
    kind.has .name = true := by
  revert h
  cases kind <;> decide

namespace Position

/-- Whether what is no node in a position is of its type, and an expression is no sequence of
statements. -/
def isTyped (v : Value) : Position → Bool
  | .one role | .optional role => role != .expression || !v.isKind .statements
  | .each _ | .statements | .stringParts => v.isSequence
  | .optionalEach _ => v.isNull || v.isSequence
  | .name => v.isName
  | .optionalName => v.isOptionalText
  | .operator | .text => v.isText
  | .whole => v.isWhole
  | .double => v.isDouble
  | .capture | .anything => true

/-- Whether a value can stand in a position of a program.  The texts of strings, symbols and
comments are not looked at. -/
def admits (v : Value) : Position → Bool
  | .one role => v.canPlay role
  | .optional role => v.isNull || v.canPlay role
  | .each role => v.isSequence && v.elements.all (·.canPlay role)
  | .optionalEach role => v.isNull || (v.isSequence && v.elements.all (·.canPlay role))
  | .statements =>
    v.isSequence && v.elements.all fun e => e.inGroup Kind.isTrivia || e.canPlay .statement
  | .stringParts => v.isSequence && v.elements.all fun e => e.isKind .string || e.isKind .embedded
  | .name | .operator => v.isName
  | .optionalName | .capture => v.isNull || v.isName
  | .whole => v.isWhole
  | .double => v.isDouble
  | .text | .anything => true

end Position

/-! ## Trees -/

namespace Value

/-- Whether the fields of a node are of their types. -/
def isTyped : Value → Bool
  | .node kind field =>
    kind.ownFields.all fun entry => (kind.position entry.1).isTyped (field entry.1)
  | _ => true

/-- **Whether all nodes of a tree are typed.** -/
def isTypedTree (v : Value) : Bool := v.preorder.all isTyped

/-- Whether an assignment to an indexed place assigns an expression. -/
def assignsExpression : Value → Bool
  | .node .call field =>
    (field .name).text? != some "[]="
      || (field .arguments).elements.getLast?.all (·.canPlay .expression)
  | _ => true

/-- Whether the fields of a node hold what can stand there in a program. -/
def isGrammatical : Value → Bool
  | .node kind field =>
    (kind.ownFields.all fun entry => (kind.position entry.1).admits (field entry.1))
      && (Value.node kind field).assignsExpression
  | _ => true

/-- Whether a tree is grammatical in all its nodes. -/
def isGrammaticalTree (v : Value) : Bool := v.preorder.all isGrammatical

/-- **Whether a tree is that of a program**: the whole file, its statements, or one of them. -/
def isGrammaticalFile (tree : Value) : Bool :=
  tree.fileBody.canPlay (.body true) && tree.fileBody.isGrammaticalTree

/-- Whether the content of a string, the value of a symbol and the text of a comment is a text. -/
def hasText : Value → Bool
  | .node kind field =>
    kind.ownFields.all fun entry => kind.position entry.1 != .text || (field entry.1).isText
  | _ => true

/-- **Whether all strings, symbols and comments of a tree have texts.** -/
def hasTexts (tree : Value) : Bool := tree.preorder.all hasText

/-- Whether the value of an integer has no more digits than are written. -/
def hasNumeral : Value → Bool
  | .node kind field =>
    kind.ownFields.all fun entry => kind.position entry.1 != .whole || !(field entry.1).hasLong
  | _ => true

/-- **Whether all integers of a tree can be written.** -/
def hasNumerals (tree : Value) : Bool := tree.preorder.all hasNumeral

/-! ## The fields of a node, and what is below it -/

section Fields

variable {kind : Kind} {field : Field → Value}

theorem isTyped_position (h : (Value.node kind field).isTyped = true) (f : Field)
    (hown : kind.owns f = true) :
    (kind.position f).isTyped (field f) = true := by
  obtain ⟨entry, hentry, rfl⟩ := List.mem_map.mp (Kind.mem_ownFields_of_owns hown)
  exact List.all_eq_true.mp h entry hentry

theorem admits_position (h : (Value.node kind field).isGrammatical = true) (f : Field)
    (hown : kind.owns f = true) : (kind.position f).admits (field f) = true := by
  obtain ⟨entry, hentry, rfl⟩ := List.mem_map.mp (Kind.mem_ownFields_of_owns hown)
  exact List.all_eq_true.mp (Bool.and_eq_true_iff.mp h).1 entry hentry

theorem isTyped_of_not_isNode {v : Value} (h : v.isNode = false) : v.isTyped = true := by
  cases v with
  | node kind field => cases h
  | _ => rfl

theorem isGrammatical_of_not_isNode {v : Value} (h : v.isNode = false) :
    v.isGrammatical = true := by
  cases v with
  | node kind field => cases h
  | _ => rfl

theorem hasNumeral_position (h : (Value.node kind field).hasNumeral = true) {f : Field}
    (hown : kind.owns f = true) (hwhole : kind.position f = .whole) :
    (field f).hasLong = false := by
  obtain ⟨entry, hentry, rfl⟩ := List.mem_map.mp (Kind.mem_ownFields_of_owns hown)
  simpa [hwhole] using List.all_eq_true.mp h entry hentry

theorem hasText_of_not_isNode {v : Value} (h : v.isNode = false) : v.hasText = true := by
  cases v with
  | node kind field => cases h
  | _ => rfl

theorem hasNumeral_of_not_isNode {v : Value} (h : v.isNode = false) : v.hasNumeral = true := by
  cases v with
  | node kind field => cases h
  | _ => rfl

theorem isTyped_of_isTypedTree {v : Value} (h : v.isTypedTree = true) : v.isTyped = true :=
  List.all_eq_true.mp h v List.mem_cons_self

theorem isTypedTree_field (h : (Value.node kind field).isTypedTree = true) (f : Field)
    (hown : kind.owns f = true) : (field f).isTypedTree = true :=
  all_preorder_field (fun _ => isTyped_of_not_isNode) h (Kind.mem_ownFields_of_owns hown)

end Fields

theorem isText_of_isName {v : Value} (h : v.isName = true) : v.isText = true := by
  obtain ⟨text, htext, _⟩ := (Option.any_eq_true _ _).mp h
  simp [isText, htext]

/-- An argument that is neither a spread value nor named arguments is an expression. -/
theorem canPlay_expression_of_argument {v : Value} (h : v.canPlay .argument = true)
    (hspread : v.inGroup Kind.isSpread = false) : v.canPlay .expression = true := by
  cases v with
  | node kind field =>
    have hspread : kind.isSpread = false := hspread
    exact (Bool.or_eq_true_iff.mp h).resolve_right (by simp [hspread])
  | _ => cases h

/-- A body that is neither absent nor a sequence is a statement, a comment or a blank line. -/
theorem canPlay_statement_of_body {v : Value} {file : Bool} (h : v.canPlay (.body file) = true)
    (hnull : ¬ v.isNull = true) (hkind : ¬ v.isKind .statements = true)
    (hproper : v.inGroup Kind.isTrivia = false) : v.canPlay .statement = true := by
  rw [canPlay, Bool.eq_false_iff.mpr hnull, Bool.eq_false_iff.mpr hkind] at h
  cases v with
  | node kind field =>
    have hgroup : (kind.isExpression || kind.isTrivia) = true := h
    have hproper : kind.isTrivia = false := hproper
    rwa [hproper, Bool.or_false] at hgroup
  | _ => cases h

/-- What can be written as an expression has a text, so it is no sequence of statements. -/
theorem isKind_statements_of_canPlay {v : Value} (h : v.canPlay .expression = true) :
    v.isKind .statements = false := by
  cases hkind : v.isKind .statements
  · rfl
  · obtain ⟨field, rfl⟩ := exists_of_isKind hkind
    cases h

end Value

/-- What can stand in a position of a program is of its type, if it has to be a text and is one. -/
theorem Position.isTyped_of_admits {v : Value} {p : Position} (h : p.admits v = true)
    (htext : p = .text → v.isText = true) : p.isTyped v = true := by
  have hpart (role : Role) (h : v.isNull = true ∨ v.canPlay role = true) :
      (role != .expression || !v.isKind .statements) = true := by
    by_cases hrole : role = .expression
    · subst hrole
      rcases h with hnull | hplays
      · cases hkind : v.isKind .statements
        · rfl
        · obtain ⟨field, rfl⟩ := Value.exists_of_isKind hkind
          cases hnull
      · simp [Value.isKind_statements_of_canPlay hplays]
    · simp [hrole]
  cases p with
  | one role => exact hpart role (.inr h)
  | optional role => exact hpart role (Bool.or_eq_true_iff.mp h)
  | each role => exact (Bool.and_eq_true_iff.mp h).1
  | statements => exact (Bool.and_eq_true_iff.mp h).1
  | stringParts => exact (Bool.and_eq_true_iff.mp h).1
  | optionalEach role =>
    refine Bool.or_eq_true_iff.mpr ((Bool.or_eq_true_iff.mp h).imp_right fun hall => ?_)
    exact (Bool.and_eq_true_iff.mp hall).1
  | optionalName =>
    exact Bool.or_eq_true_iff.mpr ((Bool.or_eq_true_iff.mp h).imp_right Value.isText_of_isName)
  | operator => exact Value.isText_of_isName h
  | text => exact htext rfl
  | name => exact h
  | whole => exact h
  | double => exact h
  | capture => rfl
  | anything => rfl

namespace Value

theorem isTyped_of_isGrammatical {v : Value} (h : v.isGrammatical = true)
    (htext : v.hasText = true) : v.isTyped = true := by
  cases v with
  | node kind field =>
    refine List.all_eq_true.mpr fun entry hentry => ?_
    refine Position.isTyped_of_admits
      (List.all_eq_true.mp (Bool.and_eq_true_iff.mp h).1 entry hentry) fun hposition => ?_
    simpa [hposition] using List.all_eq_true.mp htext entry hentry
  | _ => rfl

/-- **A grammatical tree that has texts is typed.** -/
theorem isTypedTree_of_isGrammatical {v : Value} (h : v.isGrammaticalTree = true)
    (htexts : v.hasTexts = true) : v.isTypedTree = true := by
  rw [isTypedTree, List.all_eq_true]
  intro d hd
  exact isTyped_of_isGrammatical (List.all_eq_true.mp h d hd) (List.all_eq_true.mp htexts d hd)

end Value

/-! ## Questions that have an answer -/

/-- A question that has an answer. -/
def IsAnswered {α : Type} (e : Except Fault α) : Prop := ∃ a, e = .ok a

section IsAnswered

variable {α β : Type} {e : Except Fault α}

theorem isAnswered_ok (a : α) : IsAnswered (.ok a : Except Fault α) := ⟨a, rfl⟩

theorem IsAnswered.bind {k : α → Except Fault β} (he : IsAnswered e)
    (hk : ∀ a, e = .ok a → IsAnswered (k a)) : IsAnswered (e >>= k) := by
  obtain ⟨a, rfl⟩ := he
  exact hk a rfl

theorem IsAnswered.map (f : α → β) (he : IsAnswered e) : IsAnswered (f <$> e) := by
  obtain ⟨a, rfl⟩ := he
  exact isAnswered_ok (f a)

end IsAnswered

namespace Value

variable {v : Value}

theorem exists_of_isText (h : v.isText = true) : ∃ text, v = .scalar (.str text) := by
  rcases v with (_ | _ | _ | _ | text) | _ | _ | _ | _
  case scalar.str => exact ⟨text, rfl⟩
  all_goals cases h

theorem exists_of_isSequence (h : v.isSequence = true) : ∃ items, v = .seq items := by
  cases v with
  | seq items => exact ⟨items, rfl⟩
  | _ => cases h

theorem isOptionalText_of_isText (h : v.isText = true) : v.isOptionalText = true :=
  Bool.or_eq_true_iff.mpr (.inr h)

theorem isOptionalText_of_isName (h : v.isName = true) : v.isOptionalText = true :=
  isOptionalText_of_isText (isText_of_isName h)

/-- What may be a name can be shown. -/
theorem isAnswered_shown (h : v.isOptionalText = true) : IsAnswered v.shown := by
  rcases v with (_ | _ | _ | _ | _) | _ | _ | _ | _
  case scalar.null | scalar.str => exact isAnswered_ok _
  all_goals cases h

theorem isAnswered_checkKey (h : v.isOptionalText = true) : IsAnswered v.checkKey := by
  cases v with
  | scalar s => exact isAnswered_ok ()
  | _ => cases h

theorem isAnswered_length (h : v.isSequence = true) : IsAnswered v.length := by
  obtain ⟨items, rfl⟩ := exists_of_isSequence h
  exact isAnswered_ok _

theorem isAnswered_elementAt (h : v.isSequence = true) (place : Nat) :
    IsAnswered (v.elementAt place) := by
  obtain ⟨items, rfl⟩ := exists_of_isSequence h
  exact isAnswered_ok _

end Value

/-! ### Calls -/

namespace CallShape

variable {field : Field → Value}

theorem isAnswered_isSingleValue {arguments : Value} (h : arguments.isSequence = true) :
    IsAnswered (isSingleValue arguments) := by
  refine (Value.isAnswered_length h).bind fun length _ => ?_
  split
  · exact isAnswered_ok _
  · exact (Value.isAnswered_elementAt h 0).bind fun _ _ => isAnswered_ok _

/-- A single value is no spread value and no named arguments. -/
theorem not_isSpread_of_isSingleValue {arguments : Value} (h : isSingleValue arguments = .ok true)
    {v : Value} (hv : v ∈ arguments.elements) : v.inGroup Kind.isSpread = false := by
  obtain ⟨hcollection, w, helements⟩ := of_isSingleValue h
  obtain ⟨length, _, h⟩ := exists_of_bind_eq_ok h
  rw [helements] at hv
  obtain rfl := List.mem_singleton.mp hv
  split at h
  · cases h
  · obtain ⟨first, hfirst, h⟩ := exists_of_bind_eq_ok h
    have hspread : first.inGroup Kind.isSpread = false := by simpa using Except.ok.inj h
    cases arguments with
    | table entries => cases hfirst
    | _ =>
      have hsame := Except.ok.inj hfirst
      rw [helements] at hsame
      rwa [← hsame] at hspread

theorem name_of_isIndexAssign (h : isIndexAssign field = .ok true) :
    (field .name).text? = some "[]=" := by
  rw [isIndexAssign] at h
  split at h
  · cases h
  · rename_i hname
    simpa using hname

theorem isAnswered_methodOperator? (group : Operator → Bool) {name : Value}
    (h : name.isText = true) : IsAnswered (methodOperator? group name) :=
  (Value.isAnswered_checkKey (Value.isOptionalText_of_isText h)).bind fun _ _ => isAnswered_ok _

theorem isAnswered_unary? (hname : (field .name).isText = true) : IsAnswered (unary? field) :=
  (isAnswered_methodOperator? _ hname).bind fun _ _ => isAnswered_ok _

/-- The form of a call can be told if its name is a text and its arguments are a sequence. -/
theorem isAnswered_of (hname : (field .name).isText = true)
    (harguments : (field .arguments).isSequence = true) : IsAnswered (of field) := by
  have hsingle := isAnswered_isSingleValue harguments
  have hbinary : IsAnswered (binary? field) := by
    refine (isAnswered_methodOperator? _ hname).bind fun op _ => ?_
    split
    · exact isAnswered_ok _
    · exact hsingle.bind fun _ _ => isAnswered_ok _
  have hindexAssign : IsAnswered (isIndexAssign field) := by
    rw [isIndexAssign]
    split
    · exact isAnswered_ok _
    · exact (Value.isAnswered_length harguments).bind fun _ _ => isAnswered_ok _
  have hattributeAssign : IsAnswered (isAttributeAssign field) := by
    obtain ⟨text, htext⟩ := Value.exists_of_isText hname
    rw [isAttributeAssign, htext]
    show IsAnswered (if !isSetterName text then return false
      else return (← isSingleValue (field .arguments)) && (field .block).isNull)
    split
    · exact isAnswered_ok _
    · exact hsingle.bind fun _ _ => isAnswered_ok _
  rw [of]
  split
  · exact isAnswered_ok _
  refine (isAnswered_unary? hname).bind fun unary _ => ?_
  split
  · exact isAnswered_ok _
  refine hbinary.bind fun binary _ => ?_
  split
  · exact isAnswered_ok _
  refine hindexAssign.bind fun assignsIndex _ => ?_
  split
  · exact isAnswered_ok _
  refine hattributeAssign.bind fun assignsAttribute _ => ?_
  split
  · exact isAnswered_ok _
  · exact isAnswered_ok _

end CallShape

namespace Rules

variable {field : Field → Value}

theorem isAnswered_readsAsVariable (s : Setting) (locals : Locals) {name : Value}
    (h : name.isText = true) : IsAnswered (readsAsVariable s locals name) := by
  obtain ⟨text, rfl⟩ := Value.exists_of_isText h
  refine (isAnswered_ok ()).bind fun _ _ => ?_
  split
  · exact isAnswered_ok _
  · exact isAnswered_ok _

theorem isAnswered_isOutputCall (s : Setting) (locals : Locals)
    (hname : (field .name).isText = true) (harguments : (field .arguments).isSequence = true) :
    IsAnswered (isOutputCall s locals field) := by
  rw [isOutputCall]
  split
  · exact isAnswered_ok _
  refine (Value.isAnswered_checkKey (Value.isOptionalText_of_isText hname)).bind fun _ _ => ?_
  split
  · exact isAnswered_ok _
  split
  · exact isAnswered_ok _
  refine (Value.isAnswered_length harguments).bind fun length _ => ?_
  split
  · exact isAnswered_ok _
  · exact (Value.isAnswered_elementAt harguments 0).bind fun _ _ => isAnswered_ok _

end Rules

/-! ### Nodes of a typed tree -/

namespace Value

variable {v : Value}

theorem isAnswered_signOperator? (h : v.isWhole = true ∨ v.isDouble = true) :
    IsAnswered v.signOperator? := by
  rcases v with s | _ | _ | _ | _
  case scalar =>
    rw [signOperator?, if_pos]
    · exact isAnswered_ok _
    · cases s with
      | float x => rfl
      | _ => exact h.resolve_right fun h => by cases h
  all_goals rcases h with h | h <;> cases h

theorem isAnswered_operator? (h : v.isTyped = true) : IsAnswered v.operator? := by
  unfold operator?
  split
  case h_1 =>
    exact (CallShape.isAnswered_of (isText_of_isName (isTyped_position h .name rfl))
      (isTyped_position h .arguments rfl)).map _
  case h_5 => split <;> exact isAnswered_ok _
  case h_11 => exact isAnswered_signOperator? (.inl (isTyped_position h .value rfl))
  case h_12 => exact isAnswered_signOperator? (.inr (isTyped_position h .value rfl))
  all_goals exact isAnswered_ok _

theorem isAnswered_startsWithBrace (h : v.isTypedTree = true) : IsAnswered v.startsWithBrace := by
  induction v using Value.induction with
  | node kind field ih =>
    unfold startsWithBrace
    split
    case h_2 =>
      rename_i hnode
      cases hnode
      split
      · exact isAnswered_ok _
      · have hname : (field .name).isText = true :=
          isText_of_isName (isTyped_position (isTyped_of_isTypedTree h) .name rfl)
        obtain ⟨op, hop⟩ := CallShape.isAnswered_unary? hname
        rw [hop]
        cases op with
        | some op => exact isAnswered_ok _
        | none => exact ih .receiver (isTypedTree_field h _ rfl)
    case h_3 | h_4 | h_5 | h_6 =>
      rename_i hnode
      cases hnode
      exact ih _ (isTypedTree_field h _ rfl)
    all_goals exact isAnswered_ok _
  | _ => exact isAnswered_ok _

theorem isAnswered_bodyStatements (h : v.isTyped = true) : IsAnswered v.bodyStatements := by
  unfold bodyStatements
  split
  · exact isAnswered_ok _
  · obtain ⟨items, hitems⟩ := exists_of_isSequence (isTyped_position h .body rfl)
    rw [hitems]
    exact isAnswered_ok _
  · exact isAnswered_ok _

theorem isAnswered_keyLabel? (h : v.isTyped = true) : IsAnswered (Rules.keyLabel? v) := by
  unfold Rules.keyLabel?
  split
  · obtain ⟨text, htext⟩ := exists_of_isText (isTyped_position h .value rfl)
    rw [htext]
    exact isAnswered_ok _
  · exact isAnswered_ok _

end Value
end TerseRuby
