import TerseRuby.Proofs.Edges.Ink

/-!
# Expressions begin and end with ink

An expression begins with its left edge and ends with its right edge: a keyword or a closing mark of
its own, a name, or an operand.  So its text is trimmed if the names in it are, and if no operand is
missing.  A sequence of statements has no text if it has no statements, and a text with a trailing
comment ends with whatever the comment says; named arguments have none if there are no arguments.
Where every such place is filled, and the leaves hold what they are declared to, the tree is *tidy*
(`Value.isTidyTree`).

A rule ends in ink if the parts at its right edge do.  `PartsTidy` says of all parts of a node what
the rules need of them, and `Value.tidy_rendition` says it of every tidy tree.
-/

set_option autoImplicit false

namespace TerseRuby

open Lexer (isInk)

/-! ## Tidy trees -/

/-- Whether a field of a node of the given kind holds what it has to, for the text of the node to
have no blanks at its ends: what the rules look for (`Kind.demand`), in the place of a name a name
without blanks, among statements no sequence of statements, and in a literal or a comment a number
or a text. -/
def Kind.isTidyField (kind : Kind) (f : Field) (v : Value) : Bool :=
  (kind.demand f).isMet v &&
    match f with
    | .name => kind.isParameter || v.isInked
    | .body => kind != .statements || v.elements.all fun e => !e.isKind .statements
    | .value =>
      match kind with
      | .integer => v.isWhole
      | .float => v.isDouble
      | _ => true
    | .content | .text => v.isText
    | _ => true

namespace Value

/-- Whether the fields of a node hold what they have to. -/
def isTidy : Value → Bool
  | .node kind field => kind.ownFields.all fun entry => kind.isTidyField entry.1 (field entry.1)
  | _ => true

/-- Whether all nodes of a tree are tidy. -/
def isTidyTree (v : Value) : Bool := v.preorder.all isTidy

variable {kind : Kind} {field : Field → Value}

theorem isTidy_of_not_isNode {v : Value} (h : v.isNode = false) : v.isTidy = true := by
  cases v with
  | node kind field => cases h
  | _ => rfl

theorem isTidyTree_field (h : (Value.node kind field).isTidyTree = true) {f : Field}
    (hown : kind.owns f = true) : (field f).isTidyTree = true :=
  all_preorder_field (fun _ => isTidy_of_not_isNode) h (Kind.mem_ownFields_of_owns hown)

theorem isTidyField_of_isTidyTree (h : (Value.node kind field).isTidyTree = true) {f : Field}
    (hown : kind.owns f = true) : kind.isTidyField f (field f) = true := by
  have hself := List.all_eq_true.mp h _ List.mem_cons_self
  obtain ⟨entry, hentry, rfl⟩ := List.mem_map.mp (Kind.mem_ownFields_of_owns hown)
  exact List.all_eq_true.mp hself entry hentry

end Value

/-! ## Renditions -/

open Writer (ensures_pure ensures_throw ensures_lift ensures_integer ensures_ite ensures_after
  ensures_mapM_ne_nil endsInInk_map)

/-- An expression is trimmed, and as an argument it ends in ink. -/
structure Rendition.IsInked (r : Rendition) : Prop where
  /-- As an expression. -/
  expression : (r.write .expression).IsTrimmed
  /-- As an argument. -/
  asArgument : (r.write .argument).EndsInInk

/-- A value that is no sequence of statements is trimmed in the places where it may stand. -/
structure Rendition.IsTidy (r : Rendition) : Prop where
  /-- As an expression. -/
  inked : r.value.isKind .statements = false → r.IsInked
  /-- As an element of a hash. -/
  hashElement : (r.write .hashElement).EndsInInk
  /-- As a block attached to a call. -/
  block : r.value.isKind .block = true → (r.write .block).EndsInInk

/-- The same for what stands in a field, and for its elements. -/
structure FieldRendition.IsTidy (r : FieldRendition) : Prop where
  /-- The value. -/
  whole : r.toRendition.IsTidy
  /-- The elements that it is made of. -/
  each : ∀ e ∈ r.elements, e.IsTidy
  /-- They are those of the value. -/
  values : r.elements.map Rendition.value = r.value.elements

namespace Rendition.IsInked

variable {r : Rendition}

theorem text (h : r.IsInked) :
    (r.text .expression).Ensures (fun _ => True) Text.IsTrimmed :=
  Writer.Ensures.built h.expression fun _ hd t ht => hd t ht

theorem argument (h : r.IsInked) :
    (r.text .argument).Ensures (fun _ => True) Text.EndsInInk :=
  Writer.Ensures.built h.asArgument fun _ hd => hd

theorem operand (h : r.IsInked) (parent : Operator) (side : Side) :
    (r.operand parent side).Ensures (fun _ => True) Text.IsTrimmed :=
  h.text.bind fun _ ht => ensures_after fun _ => ensures_pure (ht.grouped _)

theorem memberOperand (h : r.IsInked) :
    r.memberOperand.Ensures (fun _ => True) Text.IsTrimmed :=
  h.text.bind fun _ ht => ensures_after fun _ => ensures_pure (ht.grouped _)

theorem assignedValue (h : r.IsInked) : r.assignedValue.EndsInInk :=
  (h.operand .assign .right).bind fun _ ht => ensures_pure (Draft.endsInInk_assigned ht.stop)

/-- An operand that gets parentheses or not. -/
theorem beginsUnder (h : r.IsInked) (asks : Operator → Bool) : r.BeginsUnder asks isInk :=
  ⟨fun _ => by decide, fun _ => h.expression.start⟩

end Rendition.IsInked

/-- All parts of a tidy node are written without blanks at their ends. -/
structure PartsTidy (kind : Kind) (c : Field → FieldRendition) : Prop where
  /-- How they are written. -/
  part : ∀ f, kind.owns f = true → (c f).IsTidy
  /-- What they are. -/
  holds : ∀ f, kind.owns f = true → kind.isTidyField f (c f).value = true

namespace PartsTidy

variable {kind : Kind} {c : Field → FieldRendition} {f : Field}

theorem isMet (h : PartsTidy kind c) (hown : kind.owns f = true) :
    (kind.demand f).isMet (c f).value = true :=
  (Bool.and_eq_true_iff.mp (h.holds f hown)).1

theorem isExpression (h : PartsTidy kind c) (hown : kind.owns f = true)
    (hdemand : kind.demand f = .expression) : (c f).value.isKind .statements = false ∧
      ∀ e ∈ (c f).value.elements, e.isKind .statements = false := by
  have hmet := h.isMet hown
  rw [hdemand] at hmet
  simpa [Demand.isMet, Value.isExpression] using hmet

/-- A field that has to hold an expression. -/
theorem inked (h : PartsTidy kind c) (hown : kind.owns f = true)
    (hdemand : kind.demand f = .expression) : (c f).IsInked :=
  (h.part f hown).whole.inked (h.isExpression hown hdemand).1

/-- A field that has to hold expressions. -/
theorem each_inked (h : PartsTidy kind c) (hown : kind.owns f = true)
    (hdemand : kind.demand f = .expression) : ∀ e ∈ (c f).elements, e.IsInked := by
  intro e he
  refine ((h.part f hown).each e he).inked ((h.isExpression hown hdemand).2 e.value ?_)
  rw [← (h.part f hown).values]
  exact List.mem_map_of_mem he

/-- A field that has to hold a name. -/
theorem isInked_name (h : PartsTidy kind c) (hown : kind.owns .name = true)
    (hkind : kind.isParameter = false) : (c .name).value.isInked = true := by
  have hname := (Bool.and_eq_true_iff.mp (h.holds .name hown)).2
  simpa [hkind] using hname

end PartsTidy

/-- The elements of a field that has some. -/
theorem FieldRendition.IsTidy.ensures_sequence {r : FieldRendition} (h : r.IsTidy)
    (hsome : r.value.hasElements = true) :
    r.sequence.Ensures (fun _ => True) fun items => items = r.elements ∧ items ≠ [] := by
  refine ensures_ite (fun hcollection => ensures_pure ⟨rfl, fun hnil => ?_⟩) fun _ =>
    ensures_throw _
  rw [Value.hasElements, hcollection, ← h.values, hnil] at hsome
  cases hsome

namespace Rules

open Draft (beginsWith_lit endsInInk_of endsInInk_lit isTrimmed_of isTrimmed_lit isTrimmed_append
  isTrimmed_word isTrimmed_parenthesized endsInInk_afterKeyword)
open FieldRendition (ensures_ifPresent_or)

variable {kind : Kind} {c : Field → FieldRendition}

/-! ## Arguments and elements -/

theorem ends_arguments {items : List Rendition} (hne : items ≠ [])
    (h : ∀ r ∈ items, r.IsInked) :
    (arguments items none).Ensures (fun _ => True) Text.EndsInInk := by
  rw [arguments, Option.toList_none, List.append_nil]
  exact (ensures_mapM_ne_nil hne fun r hr => (h r hr).argument).bind fun _ hts =>
    ensures_pure (Text.endsInInk_commaSeparated hts.1 hts.2)

theorem ends_hashElements {elements : FieldRendition} (h : elements.IsTidy)
    (hsome : elements.value.hasElements = true) :
    (hashElements elements).Ensures (fun _ => True) Text.EndsInInk := by
  refine (h.ensures_sequence hsome).bind ?_
  rintro _ ⟨rfl, hne⟩
  exact (ensures_mapM_ne_nil hne fun r hr =>
    Writer.Ensures.built (h.each r hr).hashElement fun _ hd => hd).bind fun _ hts =>
      ensures_pure (Text.endsInInk_commaSeparated hts.1 hts.2)

/-- A spread value ends with the value, or with the last of its stars. -/
theorem ends_spread {stars : String} (hstars : stars.toList.getLast?.any isInk = true)
    {value : FieldRendition} (h : value.IsInked) :
    (spread stars value).Ensures (fun _ => True) Text.EndsInInk := by
  refine (ensures_ifPresent_or fun _ => h.memberOperand).bind fun t ht => ensures_pure ?_
  obtain ⟨-, rfl⟩ | ⟨-, ht⟩ := ht
  · rw [List.append_nil]
    exact Text.endsInInk_ofChars hstars
  · exact ht.stop.behind _

theorem ends_pair (hvalue : (c .value).IsInked) :
    (pair c).Ensures (fun _ => True) Text.EndsInInk := by
  refine ensures_after fun label => ?_
  split
  · exact hvalue.argument.bind fun _ ht => ensures_pure (ht.joinLabel _)
  · exact ensures_after fun _ => hvalue.argument.bind fun _ ht => ensures_pure (ht.joinInfix _ _ _)

theorem ends_hashElement (h : PartsTidy kind c) (field : Field → Value) :
    (hashElement (.node kind field) c).Ensures (fun _ => True) Text.EndsInInk := by
  cases kind
  case pair => exact ends_pair (h.inked rfl rfl)
  case doubleSplat => exact ends_spread (by decide) (h.inked rfl rfl)
  all_goals exact ensures_throw _

/-- An expression that is an argument may get parentheses. -/
theorem ends_expressionArgument {asExpression : Writer Draft} (h : asExpression.IsTrimmed)
    (self : Value) : (do
      let text ← asExpression.built
      let child ← self.operator?
      return text.grouped (child.any fun child => child.needsParensAt Operator.argumentRank) :
        Writer Text).Ensures (fun _ => True) Text.EndsInInk :=
  (Writer.Ensures.built h fun _ hd t ht => hd t ht).bind fun _ ht =>
    ensures_after fun _ => ensures_pure (ht.grouped _).stop

theorem ends_argument (h : PartsTidy kind c) (field : Field → Value) {asExpression : Writer Draft}
    (hexpression : asExpression.IsTrimmed) :
    (argument (.node kind field) c asExpression).Ensures (fun _ => True) Text.EndsInInk := by
  cases kind
  case splat | blockArgument => exact ends_spread (by decide) (h.inked rfl rfl)
  case doubleSplat => exact ends_hashElement h field
  case keywordHash => exact ends_hashElements (h.part .elements rfl) (h.isMet (f := .elements) rfl)
  all_goals exact ends_expressionArgument hexpression _

/-! ## Operators and assignments -/

theorem ends_logical (hright : (c .right).IsInked) (op : Operator) (asWord : Bool) :
    (logical c op asWord).EndsInInk :=
  ensures_after fun _ => (hright.operand op .right).bind fun _ ht =>
    ensures_ite (fun _ => ensures_pure ((endsInInk_of ht.stop).behind _))
      fun _ => ensures_pure (endsInInk_of (ht.stop.joinInfix _ _ _))

theorem ends_range (hright : (c .right).IsInked) : (range c).EndsInInk := by
  refine ensures_after fun left => (ensures_ifPresent_or fun _ => hright.operand _ _).bind
    fun right ht => ensures_pure ?_
  obtain ⟨hnull, rfl⟩ | ⟨-, ht⟩ := ht
  · rw [hnull, Bool.or_true]
    exact (isTrimmed_parenthesized _).stop
  · exact ((endsInInk_of ht.stop).behind _).grouped _

theorem trimmed_assignment (hname : (c .name).value.isInked = true)
    (hvalue : (c .value).IsInked) : (assignment c).IsTrimmed :=
  hvalue.assignedValue.bind fun _ hd =>
    ensures_pure (isTrimmed_append (isTrimmed_word hname).start hd)

theorem ends_compoundAssignment (hvalue : (c .value).IsInked) :
    (compoundAssignment c).EndsInInk := by
  have hrest : (do
      let text ← (c .target).text .expression
      if text.isEmpty then throw .emptyText
      let gap := if text.endsWith Text.isNameMark then Draft.lit " " else []
      let value ← (c .value).operand .assign .right
      return Draft.of text ++ gap ++ Draft.word (c .operator).value ++ Draft.of value :
        Writer Draft).EndsInInk :=
    ensures_after fun _ => ensures_ite (fun _ => ensures_throw _) fun _ =>
      (hvalue.operand _ _).bind fun _ ht => ensures_pure ((endsInInk_of ht.stop).behind _)
  rw [compoundAssignment]
  by_cases hlocal : (c .target).value.isKind .localRead = true
  · simp only [hlocal, if_true]
    exact ensures_after fun _ => hrest
  · simp only [hlocal]
    exact hrest

theorem ends_constantPath (hname : (c .name).value.isInked = true) :
    (constantPath c).EndsInInk :=
  ensures_after fun _ => ensures_pure ((isTrimmed_word hname).stop.behind _)

/-! ## Calls -/

/-- A block ends with a keyword or with a brace. -/
theorem ends_block (c : Field → FieldRendition) : (block c).EndsInInk := by
  refine Writer.Ensures.withLocals (fun _ => True) (fun _ h => h) ?_
  refine ensures_after fun _ => ensures_after fun _ =>
    ensures_ite (fun _ => ?_) fun _ => ?_
  · exact ensures_after fun _ => ensures_pure ((endsInInk_lit (by decide)).behind _)
  · exact ensures_after fun _ => ensures_pure ((endsInInk_lit (by decide)).behind _)

theorem ends_attachedBlock {r : FieldRendition} (h : r.IsTidy) :
    (attachedBlock r).Ensures (fun _ => True) fun d => d = [] ∨ d.EndsInInk :=
  ensures_ite (fun hblock => (h.whole.block hblock).imp fun _ hd => .inr hd)
    fun _ => ensures_pure (.inl rfl)

theorem ends_unaryCall (hreceiver : (c .receiver).IsInked) (op : Operator) :
    (unaryCall c op).EndsInInk := by
  refine (hreceiver.operand op .right).bind fun operand ht => ?_
  split
  · exact ensures_ite (fun _ => ensures_throw _) fun _ =>
      ensures_pure ((endsInInk_of ht.stop).behind _)
  · exact ensures_pure ((endsInInk_of ht.stop).behind _)
  · exact ensures_pure ((endsInInk_of (ht.grouped _).stop).behind _)

theorem ends_binaryCall {argument : Rendition} (h : argument.IsInked) (op : Operator) :
    (binaryCall c op argument).EndsInInk :=
  ensures_after fun _ => (h.operand op .right).bind fun _ ht =>
    ensures_pure (endsInInk_of (ht.stop.joinInfix _ _ _))

theorem ends_argumentList : (argumentList c).Ensures (fun _ => True) fun d =>
    d = [] ∨ d.EndsInInk := by
  refine ensures_ite (fun _ => ensures_after fun _ => ensures_after fun _ => ?_) fun _ =>
    ensures_ite (fun _ => ensures_pure (.inl rfl)) fun _ => ensures_after fun _ =>
      ensures_after fun _ => ensures_after fun _ => ensures_ite (fun _ => ?_) fun _ =>
        ensures_pure (.inl rfl)
  · exact ensures_pure (.inr (isTrimmed_parenthesized _).stop)
  · exact ensures_pure (.inr (endsInInk_lit (by decide)))

theorem ends_plainCall (hname : (c .name).value.isInked = true) (hblock : (c .block).IsTidy) :
    (plainCall c).EndsInInk := by
  refine ensures_after fun receiver => ends_argumentList.bind fun list hlist =>
    (ends_attachedBlock hblock).bind fun block hblock => ensures_pure ?_
  exact (((isTrimmed_word hname).stop.behind receiver).before hlist).before hblock

theorem ends_brackets (keys : Text) : (brackets keys).EndsInInk :=
  (endsInInk_lit (by decide)).behind _

/-- How a call ends: with an operand or a value, with a bracket, or with its name, its arguments or
its block. -/
theorem ends_call (h : PartsTidy .call c) : (call c).EndsInInk := by
  have hreceiver : (c .receiver).IsInked := h.inked rfl rfl
  have harguments : ∀ e ∈ (c .arguments).elements, e.IsInked := h.each_inked rfl rfl
  have hplain : (plainCall c).EndsInInk :=
    ends_plainCall (h.isInked_name rfl rfl) (h.part .block rfl)
  refine ensures_after fun shape => ?_
  split
  · exact ends_unaryCall hreceiver _
  · rename_i hitems
    rw [hitems] at harguments
    exact ends_binaryCall (harguments _ List.mem_cons_self) _
  · rename_i hlast
    have hvalue := harguments _ (List.mem_of_getLast? hlast)
    exact ensures_after fun _ => ensures_after fun _ =>
      hvalue.assignedValue.bind fun _ hd => ensures_pure (hd.behind _)
  · rename_i hitems
    rw [hitems] at harguments
    exact ensures_after fun _ => (harguments _ List.mem_cons_self).assignedValue.bind fun _ hd =>
      ensures_pure (hd.behind _)
  · exact ensures_after fun _ => ensures_after fun _ => ensures_after fun _ =>
      ensures_pure ((ends_brackets _).behind _)
  · exact hplain

theorem trimmed_call (h : PartsTidy .call c) : (call c).IsTrimmed := by
  have hname : (c .name).value.isInked = true := h.isInked_name rfl rfl
  have hreceiver : (c .receiver).IsInked := h.inked rfl rfl
  exact Writer.isTrimmed_of (begins_call (h.part .arguments rfl).values
    (fun _ => Value.beginsWord_of_isInked hname) (fun _ => hreceiver.expression.start)
    fun _ _ _ => Lexer.isInk_of_isOrdinary) (ends_call h)

theorem ends_superCall (hblock : (c .block).IsTidy) : (superCall c).EndsInInk := by
  have hend {list : Draft} (hlist : list = [] ∨ list.EndsInInk) : (do
      let block ← attachedBlock (c .block)
      return Draft.lit "super" ++ list ++ block).EndsInInk :=
    (ends_attachedBlock hblock).bind fun _ hd => ensures_pure
      ((Draft.EndsInInk.before (endsInInk_lit (by decide)) hlist).before hd)
  unfold superCall
  dsimp only
  split
  · exact ensures_after fun _ => ensures_after fun _ =>
      hend (.inr (isTrimmed_parenthesized _).stop)
  · rename_i argument _ hargument
    have hinked : argument.IsInked := by
      rw [blockArgument?] at hargument
      split at hargument
      · rename_i hkind
        cases hargument
        refine hblock.whole.inked ?_
        obtain ⟨field, hvalue⟩ := Value.exists_of_isKind hkind
        rw [hvalue]
        rfl
      · cases hargument
    exact hinked.argument.bind fun _ ht => hend (.inr ((endsInInk_of ht).behind _))
  · exact hend (.inl rfl)

theorem ends_yieldCall : (yieldCall c).EndsInInk :=
  ensures_ite (fun _ => ensures_after fun _ => ensures_after fun _ =>
      ensures_pure ((isTrimmed_parenthesized _).stop.behind _))
    fun _ => ensures_pure (endsInInk_lit (by decide))

theorem trimmed_jump (h : (c .arguments).IsTidy)
    (harguments : ∀ e ∈ (c .arguments).elements, e.IsInked)
    {keyword : String} (hstart : keyword.toList.head?.any isInk = true)
    (hstop : keyword.toList.getLast?.any isInk = true) : (jump keyword c).IsTrimmed := by
  refine ensures_ite (fun htrue => ?_) fun _ => ensures_pure (isTrimmed_lit hstart hstop)
  have hvalues : (do arguments (← (c .arguments).sequence) none : Writer Text).Ensures
      (fun _ => True) Text.EndsInInk := by
    refine (h.ensures_sequence (Value.hasElements_of_isTrue htrue)).bind ?_
    rintro _ ⟨rfl, hne⟩
    exact ends_arguments hne harguments
  exact (hvalues.withBraces true).bind fun _ ht => ensures_pure
    (isTrimmed_append (beginsWith_lit hstart) (endsInInk_afterKeyword ht))

/-! ## Literals -/

theorem trimmed_integer {value : Value} (hwhole : value.isWhole = true)
    (hne : value.display ≠ "") : (liftM (integer value) : Writer Draft).IsTrimmed := by
  refine ensures_integer (isTrimmed_of (Text.isTrimmed_ofChars ?_ (Lexer.isInk_of_subset ?_)))
  · simpa [String.toList_eq_nil_iff] using hne
  · cases value with
    | scalar s => exact Lexer.display_subset hwhole
    | _ => cases hwhole

theorem trimmed_float {value : Value} (hdouble : value.isDouble = true) :
    (liftM (float value) : Writer Draft).IsTrimmed := by
  refine ensures_lift fun d hd => ?_
  cases value with
  | scalar s =>
    cases s with
    | float x =>
      cases hd
      exact isTrimmed_of (Text.isTrimmed_ofChars (text_ne_nil x) (Lexer.isInk_rubyText x))
    | _ => cases hdouble
  | _ => cases hdouble

theorem ends_symbol (value : Value) : (liftM (symbol value) : Writer Draft).EndsInInk := by
  refine ensures_lift fun d hd => ?_
  unfold symbol at hd
  split at hd
  · rename_i text _
    cases hd
    refine endsInInk_of ?_
    by_cases hbare : text.toList ∈ Spelling.bareSymbol
    · rw [Literal.symbol_of_mem hbare]
      exact (Text.isTrimmed_ofChars (List.cons_ne_nil _ _)
        (List.forall_mem_cons.mpr ⟨by decide, Lexer.isInk_bareSymbol hbare⟩)).stop
    · rw [Literal.symbol_of_not_mem hbare]
      exact Text.endsInInk_concat (':' :: '"' :: _) (by decide)
  · cases hd

theorem ends_string {content : Value} (h : content.isText = true) :
    (liftM (string content) : Writer Draft).EndsInInk := by
  refine ensures_lift fun d hd => ?_
  obtain ⟨text, htext⟩ := Option.isSome_iff_exists.mp h
  rw [string, Content.literal, htext] at hd
  cases hd
  refine endsInInk_of ?_
  rw [Literal.string]
  split
  · exact Text.endsInInk_concat ('\'' :: _) (by decide)
  · exact Text.endsInInk_concat ('"' :: _) (by decide)

theorem ends_interpolated : (interpolated c).EndsInInk :=
  ensures_after fun _ => ensures_after fun _ =>
    Writer.Ensures.bind (Q := Text.EndsInInk)
      (ensures_after fun _ => ensures_pure
        (Text.EndsInInk.behind (Text.endsInInk_ofChars (by decide)) _))
      fun _ ht => ensures_pure (endsInInk_of ht)

/-! ## All expressions -/

/-- **The text of a tidy node has no blanks at its ends.**  Most constructs have a keyword at either
end; of the others, the parts at their edges are tidy. -/
theorem trimmed_expression (h : PartsTidy kind c) (field : Field → Value)
    (hkind : kind ≠ .statements) : (expression (.node kind field) c).IsTrimmed := by
  have hordinary {w : Writer Draft} (hw : w.BeginsWith Lexer.isOrdinary) : w.BeginsWith isInk :=
    hw.mono fun _ => Lexer.isInk_of_isOrdinary
  have hend : (Draft.lit "end").EndsInInk := endsInInk_lit (by decide)
  cases kind
  case statements => exact absurd rfl hkind
  case methodDef =>
    exact ensures_after fun _ => ensures_after fun _ => ensures_pure
      (isTrimmed_append ((((beginsWith_lit (by decide)).append _).append _).append _) hend)
  case classDef =>
    exact ensures_after fun _ => ensures_after fun _ => ensures_after fun _ => ensures_pure
      (isTrimmed_append ((((beginsWith_lit (by decide)).append _).append _).append _) hend)
  case singletonClass | moduleDef =>
    exact ensures_after fun _ => ensures_after fun _ => ensures_pure
      (isTrimmed_append (((beginsWith_lit (by decide)).append _).append _) hend)
  case ifThen =>
    exact (begins_conditional (by decide)).bind fun _ hd =>
      ensures_pure (isTrimmed_append hd hend)
  case unlessThen =>
    exact ensures_after fun _ => ensures_after fun _ => ensures_after fun _ => ensures_pure
      (isTrimmed_append ((((beginsWith_lit (by decide)).append _).append _).append _) hend)
  case caseOf =>
    exact ensures_after fun _ => ensures_after fun _ => ensures_after fun _ =>
      ensures_after fun _ => ensures_pure (isTrimmed_append
        (((((beginsWith_lit (by decide)).append _).append _).append _).append _) hend)
  case whileLoop | untilLoop =>
    exact ensures_after fun _ => ensures_after fun _ => ensures_pure
      (isTrimmed_append (((beginsWith_lit (by decide)).append _).append _) hend)
  case forLoop =>
    exact ensures_after fun _ => ensures_after fun _ => ensures_after fun _ => ensures_pure
      (isTrimmed_append (((((beginsWith_lit (by decide)).append _).append _).append _).append _)
        hend)
  case beginBlock =>
    exact ensures_after fun _ => ensures_after fun _ => ensures_after fun _ =>
      ensures_after fun _ => ensures_after fun _ => ensures_pure (isTrimmed_append
        (((((beginsWith_lit (by decide)).append _).append _).append _).append _) hend)
  case call => exact trimmed_call h
  case logicalAnd | logicalOr =>
    have hleft : (c .left).IsInked := h.inked rfl rfl
    have hright : (c .right).IsInked := h.inked rfl rfl
    have hlogical (op : Operator) (asWord : Bool) : (logical c op asWord).IsTrimmed :=
      Writer.isTrimmed_of (begins_logical (hleft.beginsUnder _) asWord)
        (ends_logical hright op asWord)
    exact ensures_ite (fun _ => hlogical _ true) fun _ => hlogical _ false
  case logicalNot =>
    have hoperand : (c .expression).IsInked := h.inked rfl rfl
    exact (hoperand.operand _ _).bind fun _ ht => ensures_pure
      (isTrimmed_append (beginsWith_lit (by decide)) (endsInInk_afterKeyword ht.stop))
  case returnJump | breakJump | nextJump =>
    exact trimmed_jump (h.part .arguments rfl) (h.each_inked rfl rfl) (by decide)
      (by decide)
  case yieldCall => exact Writer.isTrimmed_of (hordinary begins_yieldCall) ends_yieldCall
  case superCall =>
    exact Writer.isTrimmed_of (hordinary begins_superCall) (ends_superCall (h.part .block rfl))
  case integer =>
    obtain ⟨hmet, hwhole⟩ := Bool.and_eq_true_iff.mp (h.holds .value rfl)
    exact trimmed_integer hwhole (bne_iff_ne.mp hmet)
  case float => exact trimmed_float (Bool.and_eq_true_iff.mp (h.holds .value rfl)).2
  case symbol => exact Writer.isTrimmed_of (hordinary (begins_symbol _)) (ends_symbol _)
  case string =>
    have htext : (c .content).value.isText = true :=
      (Bool.and_eq_true_iff.mp (h.holds .content rfl)).2
    exact Writer.isTrimmed_of (hordinary (begins_string htext)) (ends_string htext)
  case interpolated => exact Writer.isTrimmed_of (hordinary begins_interpolated) ends_interpolated
  case array =>
    exact ensures_after fun _ => ensures_after fun _ => ensures_pure
      (isTrimmed_append ((beginsWith_lit (by decide)).append _) (endsInInk_lit (by decide)))
  case hash =>
    exact ensures_after fun _ => ensures_pure
      (isTrimmed_append ((beginsWith_lit (by decide)).append _) (endsInInk_lit (by decide)))
  case range =>
    have hleft : (c .left).IsInked := h.inked rfl rfl
    have hright : (c .right).IsInked := h.inked rfl rfl
    exact Writer.isTrimmed_of
      (begins_range (fun _ => by decide) fun _ _ => hleft.beginsUnder _) (ends_range hright)
  case parentheses =>
    exact ensures_after fun _ => ensures_pure (isTrimmed_parenthesized _)
  case localRead | instanceRead | globalRead | constantRead =>
    exact ensures_pure (isTrimmed_word (h.isInked_name rfl rfl))
  case localWrite =>
    exact ensures_after fun _ => trimmed_assignment (h.isInked_name rfl rfl) (h.inked rfl rfl)
  case instanceWrite | globalWrite | constantWrite =>
    exact trimmed_assignment (h.isInked_name rfl rfl) (h.inked rfl rfl)
  case constantPath =>
    have hparent : (c .parent).IsInked := h.inked rfl rfl
    exact Writer.isTrimmed_of
      (begins_constantPath (fun _ => by decide) fun _ => hparent.beginsUnder _)
      (ends_constantPath (h.isInked_name rfl rfl))
  case operatorWrite =>
    have htarget : (c .target).IsInked := h.inked rfl rfl
    exact Writer.isTrimmed_of (begins_compoundAssignment htarget.expression.start)
      (ends_compoundAssignment (h.inked rfl rfl))
  case trueLiteral | falseLiteral | nilLiteral | selfLiteral =>
    exact ensures_pure (isTrimmed_lit (by decide) (by decide))
  all_goals exact ensures_throw _

end Rules

/-! ## Trees -/

namespace Value

/-- What is no node cannot be written in any of these places. -/
theorem tidy_of_not_isNode {v : Value} (h : v.isNode = false) : v.rendition.toRendition.IsTidy := by
  have hkind : v.kind? = none := by
    cases v with
    | node kind field => cases h
    | _ => rfl
  have hexpression : (Rules.expression v fun _ => .absent).IsTrimmed := by
    rw [Rules.expression, hkind]
    exact ensures_throw _
  have hhashElement : (Rules.hashElement v fun _ => .absent).Ensures (fun _ => True)
      Text.EndsInInk := by
    rw [Rules.hashElement, hkind]
    exact ensures_throw _
  have hargument : (Rules.argument v (fun _ => .absent)
      (Rules.expression v fun _ => .absent)).Ensures (fun _ => True) Text.EndsInInk := by
    rw [Rules.argument, hkind]
    exact Rules.ends_expressionArgument hexpression v
  rw [toRendition_of_not_isNode h]
  refine ⟨fun _ => ⟨hexpression, endsInInk_map hargument⟩, endsInInk_map hhashElement,
    fun hblock => ?_⟩
  change (v.kind? == some Kind.block) = true at hblock
  rw [hkind] at hblock
  cases hblock

/-- What is no node is tidy if those of its elements are that are nodes. -/
theorem tidy_of_elements {v : Value} (hleaf : v.isNode = false)
    (h : ∀ e ∈ v.elements, e.isNode = true → e.rendition.toRendition.IsTidy) :
    v.rendition.IsTidy := by
  refine ⟨tidy_of_not_isNode hleaf, fun e he => ?_, ?_⟩
  · rw [rendition_elements_eq] at he
    obtain ⟨item, hitem, rfl⟩ := List.mem_map.mp he
    cases hnode : item.isNode
    · exact tidy_of_not_isNode hnode
    · exact h item hitem hnode
  · rw [rendition_elements, rendition_value]

theorem partsTidy {kind : Kind} {field : Field → Value} (h : (node kind field).isTidyTree = true)
    (hparts : ∀ f, kind.owns f = true → (field f).rendition.IsTidy) :
    PartsTidy kind fun f => (field f).rendition := by
  refine ⟨hparts, fun f hown => ?_⟩
  rw [rendition_value]
  exact isTidyField_of_isTidyTree h hown

/-- **A tidy tree is written without blanks at its ends.** -/
theorem tidy_rendition {v : Value} (h : v.isTidyTree = true) : v.rendition.IsTidy := by
  induction v using Value.induction with
  | seq items ih =>
    exact tidy_of_elements rfl fun e he hnode => (ih e he (all_preorder_item h he hnode)).whole
  | node kind field ih =>
    have hparts := partsTidy h fun f hown => ih f (isTidyTree_field h hown)
    have hexpression (hkind : (node kind field).isKind .statements = false) :=
      Rules.trimmed_expression hparts field (by simpa [isKind, kind?] using hkind)
    refine ⟨⟨fun hkind => ⟨hexpression hkind, ?_⟩, ?_, fun _ => ?_⟩, List.forall_mem_nil _, ?_⟩
    · exact endsInInk_map (Rules.ends_argument hparts field (hexpression hkind))
    · exact endsInInk_map (Rules.ends_hashElement hparts field)
    · exact Rules.ends_block fun f => (field f).rendition
    · rw [rendition_elements, rendition_value]
  -- what is neither a sequence nor a node has no nodes in it
  | _ =>
    refine tidy_of_elements rfl fun e he hnode => ?_
    obtain ⟨items, hitems, _⟩ := exists_items_of_mem_elements he hnode
    cases hitems

end Value
end TerseRuby
