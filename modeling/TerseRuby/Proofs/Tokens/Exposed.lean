import TerseRuby.Proofs.Acceptance.Nodes
import TerseRuby.Proofs.Tokens.Beginning
import TerseRuby.Proofs.Tokens.Sealed

/-!
# Trees that show a bar

A bar in the text of a tree comes from a node that is written with one (`Value.writesBar`): an
operator, a name that is spelled with it, a comment, or a block with parameters.  It is seen from
outside unless there are brackets or quotes around it, and whether there are follows from the way
down to the node: a part of a node is hidden if it is written between brackets, or gets parentheses
where it stands (`Value.hides`).  A tree shows a bar if a node in it is written with one and no part
on the way down to it is hidden (`Value.ShowsBar`).

This file has the rules for operands, elements, literals and statements: what a rule writes is
sealed, in the sense of `Text.Sealed`, if what it writes of the parts that are not hidden is.
-/

set_option autoImplicit false

namespace TerseRuby

/-! ## Nodes that are written with a bar -/

namespace Value

/-- Whether a value is a text with a bar in it. -/
def hasBar (v : Value) : Bool := v.text?.any fun text => text.toList.contains '|'

theorem bar_not_mem_of_hasBar {v : Value} (h : v.hasBar = false) {text : String}
    (htext : v.text? = some text) : '|' ∉ text.toList := by
  rw [hasBar, htext] at h
  simpa using h

/-- Whether a node is written with a bar under a setting, its parts apart. -/
def writesBar (s : Setting) : Value → Bool
  | .node kind field =>
    match kind with
    | .logicalOr => !(field .keyword).isTrue
    | .operatorWrite => (field .operator).hasBar
    | .symbol =>
      (field .value).hasBar && (field .value).text?.any (Literal.isBareSymbol ·.toList)
    | .comment => s.keepComments && (field .text).hasBar
    | .block => !s.braceBlocks && !(field .parameters).isNull
    | _ => kind.has .name && (field .name).hasBar
  | _ => false

/-- A node with a name is written with a bar if the name is. -/
theorem writesBar_of_owns_name {kind : Kind} {field : Field → Value}
    (hown : kind.owns .name = true) (s : Setting) :
    (Value.node kind field).writesBar s = (field .name).hasBar := by
  cases kind <;> first | rfl | cases hown

/-! ## Parts that are hidden -/

/-- Whether a value in a role gets parentheses. -/
def isHiddenAs (v : Value) : Role → Bool
  | .argument => v.isEnclosed fun child => child.needsParensAt Operator.argumentRank
  | .statement | .body _ => v.startsWithBrace.toOption == some true
  | _ => false

/-- Whether the receiver of a call of some form gets parentheses. -/
def isHiddenReceiver (v : Value) : Option CallShape → Bool
  | some (.unary op) => v.isEnclosedUnder op .right
  | some (.binary op) => v.isEnclosedUnder op .left
  | _ => v.isEnclosedAsMember

/-- The arguments of a call that are not written between brackets, and get no parentheses there: an
operand, the value of an assignment, and what follows the name of a method of output. -/
def IsBareArgument (field : Field → Value) (v : Value) : Prop :=
  match (CallShape.of field).toOption with
  | some (.binary op) => v.isEnclosedUnder op .right = false
  | some .indexAssign =>
    (field .arguments).elements.getLast? = some v ∧ v.isHiddenAs .argument = false
  | some .attributeAssign => v.isHiddenAs .argument = false
  | some .plain =>
    (field .name).text?.any Rules.outputMethods.contains = true ∧ Rules.isOutputArgument v = true
  | _ => False

/-- Whether a value in a field of a node is hidden: it is written between brackets or quotes, gets
parentheses, or is not written at all. -/
def hides (s : Setting) (kind : Kind) (field : Field → Value) (f : Field) (v : Value) : Prop :=
  match f with
  | .body =>
    kind = .parentheses ∨ (kind = .block ∧ s.braceBlocks = true) ∨ v.isHiddenAs .statement = true
  | .statements => v.isHiddenAs .statement = true
  | .predicate | .alternate | .index | .collection | .elseClause | .ensureClause | .rescueClauses
  | .constantPath | .target | .requireds | .optionals | .rest | .posts | .keywords
  | .keywordRest => False
  | .conditions => kind = .whenClause ∧ v.isHiddenAs .argument = true
  | .exceptions | .key => v.isHiddenAs .argument = true
  | .superclass | .parent => v.isEnclosedAsMember = true
  | .receiver =>
    match kind with
    | .methodDef => (v.isKind .selfLiteral || v.inGroup Kind.isBareWord) = false
    | _ => v.isHiddenReceiver (CallShape.of field).toOption = true
  | .arguments =>
    match kind with
    | .call => ¬IsBareArgument field v
    | .returnJump | .breakJump | .nextJump => v.isHiddenAs .argument = true
    | _ => True
  | .block =>
    match kind with
    | .call => v.isKind .block = false
    | .superCall => (field .arguments).isNull = false ∧ v.isKind .block = false
    | _ => False
  | .left =>
    match kind with
    | .logicalAnd => v.isEnclosedUnder (conjunctionOperator field) .left = true
    | .logicalOr => v.isEnclosedUnder (disjunctionOperator field) .left = true
    | _ => ((field .left).isNull || (field .right).isNull) = true ∨
        v.isEnclosedUnder (rangeOperator field) .left = true
  | .right =>
    match kind with
    | .logicalAnd => v.isEnclosedUnder (conjunctionOperator field) .right = true
    | .logicalOr => v.isEnclosedUnder (disjunctionOperator field) .right = true
    | _ => ((field .left).isNull || (field .right).isNull) = true ∨
        v.isEnclosedUnder (rangeOperator field) .right = true
  | .expression =>
    match kind with
    | .logicalNot => v.isEnclosedUnder .wordNot .right = true
    | _ => v.isEnclosedAsMember = true
  | .value =>
    match kind with
    | .doubleSplat => v.isEnclosedAsMember = true
    | _ => v.isHiddenAs .argument = true
  | .elements => kind ≠ .keywordHash
  | _ => True

end Value

/-- The setting in which a field of a node is written. -/
def Setting.inField (s : Setting) (kind : Kind) (f : Field) : Setting :=
  match kind, f with
  | .whileLoop, .predicate | .untilLoop, .predicate | .forLoop, .collection
  | .returnJump, .arguments | .breakJump, .arguments | .nextJump, .arguments =>
    { s with braceBlocks := true }
  | .block, .body => { s with braceBlocks := false }
  | _, _ => s

theorem Setting.inField_statements (s : Setting) (kind : Kind) :
    s.inField kind .statements = s := by
  cases kind <;> rfl

theorem Setting.inField_body (s : Setting) {kind : Kind} (h : kind ≠ .block) :
    s.inField kind .body = s := by
  cases kind <;> first | rfl | exact absurd rfl h

namespace Value

/-- **The trees that show a bar** under a setting. -/
inductive ShowsBar : Setting → Value → Prop
  /-- A node that is written with one. -/
  | own {s : Setting} {v : Value} (h : v.writesBar s = true) : ShowsBar s v
  /-- A node with a part that shows one and is not hidden. -/
  | part {s : Setting} {kind : Kind} {field : Field → Value} {f : Field} {v : Value}
      (hown : kind.owns f = true) (hv : v = field f ∨ v ∈ (field f).elements)
      (hopen : ¬hides s kind field f v) (h : ShowsBar (s.inField kind f) v) :
      ShowsBar s (.node kind field)

end Value

/-! ## Writers of sealed texts -/

/-- Under a setting, whatever a run of the writer ends with is sealed. -/
def Writer.Seals (o : Options) (s : Setting) (w : Writer Draft) : Prop :=
  w.EnsuresIn s (Draft.Sealed o)

/-- The same for a text. -/
def Writer.SealsText (o : Options) (s : Setting) (w : Writer Text) : Prop :=
  w.EnsuresIn s (Text.Sealed o)

theorem Writer.Seals.built {o : Options} {s : Setting} {w : Writer Draft} (h : w.Seals o s) :
    w.built.SealsText o s :=
  EnsuresIn.built h fun _ hd t ht => hd t ht

/-- The roles that are played inside a file, with signs that are no bars. -/
def Role.isBarless : Role → Bool
  | .body file => !file
  | .parameter sign => Text.isSmooth sign
  | _ => true

/-- What is written of a value is sealed, in every role in which it shows no bar. -/
def Rendition.Seals (o : Options) (s : Setting) (r : Rendition) : Prop :=
  ∀ role, role.isBarless = true → r.value.fits role = true →
    (r.value.isHiddenAs role = true ∨ ¬r.value.ShowsBar s) → (r.write role).Seals o s

/-- The same for the value of a field and for the elements that it is made of. -/
structure FieldRendition.Seals (o : Options) (s : Setting) (r : FieldRendition) : Prop where
  /-- The value. -/
  whole : r.toRendition.Seals o s
  /-- The elements. -/
  each : ∀ e ∈ r.elements, e.Seals o s

/-- The parts of a node are sealed where they show no bar, and the node shows none. -/
structure PartsSeal (o : Options) (s : Setting) (kind : Kind) (field : Field → Value)
    (c : Field → FieldRendition) : Prop where
  /-- The parts are settled. -/
  settle : PartsSettle o (.node kind field) c
  /-- Their elements are those of the fields. -/
  elements : ∀ f, (c f).elements.map Rendition.value = (field f).elements
  /-- They are sealed where they show no bar. -/
  parts : ∀ f, kind.owns f = true → (c f).Seals o (s.inField kind f)
  /-- The node shows none. -/
  quiet : ¬(Value.node kind field).ShowsBar s

open Writer (EnsuresIn Seals SealsText ensures_shown ensures_integer ensuresIn_pure ensuresIn_throw
  ensuresIn_lift ensuresIn_ite ensuresIn_mapM)
open FieldRendition (settlesText_ifPresent ensuresIn_ifPresent ensuresIn_sequence)
open Draft (sealed_of sealed_lit sealed_nil sealed_separator sealed_ite sealed_afterKeyword)

variable {o : Options} {s : Setting} {kind : Kind} {field : Field → Value}
  {c : Field → FieldRendition} {f : Field}

namespace PartsSeal

theorem value (h : PartsSeal o s kind field c) (f : Field) : (c f).value = field f :=
  h.settle.values f

/-- A part that is hidden only where a role hides it shows no bar otherwise. -/
theorem quiet_of_eq_or_mem (h : PartsSeal o s kind field c) (hown : kind.owns f = true)
    {role : Role} {v : Value} (hv : v = field f ∨ v ∈ (field f).elements)
    (hhides : Value.hides s kind field f v → v.isHiddenAs role = true) :
    v.isHiddenAs role = true ∨ ¬v.ShowsBar (s.inField kind f) := by
  by_cases hhidden : Value.hides s kind field f v
  · exact .inl (hhides hhidden)
  · exact .inr fun hbar => h.quiet (.part hown hv hhidden hbar)

theorem quiet_of_mem (h : PartsSeal o s kind field c) (hown : kind.owns f = true) {role : Role}
    {e : Rendition} (he : e ∈ (c f).elements)
    (hhides : ∀ v, Value.hides s kind field f v → v.isHiddenAs role = true) :
    e.value.isHiddenAs role = true ∨ ¬e.value.ShowsBar (s.inField kind f) :=
  h.quiet_of_eq_or_mem hown (.inr (h.elements f ▸ List.mem_map_of_mem he)) (hhides _)

/-- So the part is sealed in that role. -/
theorem write (h : PartsSeal o s kind field c) (role : Role) (hown : kind.owns f = true)
    (hrole : role.isBarless = true) (hfits : (field f).fits role = true)
    (hhides : Value.hides s kind field f (field f) → (field f).isHiddenAs role = true) :
    ((c f).write role).Seals o (s.inField kind f) := by
  refine (h.parts f hown).whole role hrole (by rwa [h.value]) ?_
  rw [h.value]
  exact h.quiet_of_eq_or_mem hown (.inl rfl) hhides

/-- And so are the elements of a part. -/
theorem writeEach (h : PartsSeal o s kind field c) (role : Role) (hown : kind.owns f = true)
    (hrole : role.isBarless = true) (hfits : ∀ v : Value, v.fits role = true)
    (hhides : ∀ v, Value.hides s kind field f v → v.isHiddenAs role = true) :
    ∀ e ∈ (c f).elements, (e.write role).Seals o (s.inField kind f) :=
  fun e he => (h.parts f hown).each e he role hrole (hfits _) (h.quiet_of_mem hown he hhides)

end PartsSeal

namespace Rules

/-! ## Operands -/

/-- A text that gets parentheses where operators ask for them. -/
theorem sealsText_enclosed {w : Writer Text} {v : Value} (asks : Operator → Bool)
    (hsettle : w.SettlesText o) (hseal : v.isEnclosed asks = false → w.SealsText o s) :
    SealsText o s (do
      let text ← w
      let child ← v.operator?
      return text.grouped (child.any asks)) := by
  have hask (t : Text) (ht : v.isEnclosed asks = false → t.Sealed o) (hsettled : t.Settled o) :
      SealsText o s (do
        let child ← v.operator?
        return t.grouped (child.any asks)) := by
    refine (ensuresIn_lift fun _ hchild => hchild).bind fun child hchild =>
      ensuresIn_pure (Text.sealed_grouped hsettled fun hbare => ht ?_)
    rwa [Value.isEnclosed, hchild]
  cases henclosed : v.isEnclosed asks with
  | true =>
    rw [henclosed] at hask
    exact (hsettle.inSetting s).bind fun t ht => hask t (fun h => by cases h) ht
  | false => exact (hseal henclosed).bind fun t ht => hask t (fun _ => ht) ht.settled

theorem sealsText_operand {r : Rendition} (asks : Operator → Bool) (hsettle : r.Settles o)
    (hseal : r.value.isEnclosed asks = false → (r.write .expression).Seals o s) :
    SealsText o s (do
      let text ← r.text .expression
      let child ← r.value.operator?
      return text.grouped (child.any asks)) :=
  sealsText_enclosed asks (hsettle.text rfl rfl) fun hbare => (hseal hbare).built

/-- In the place of the value of an assignment the same operators get parentheses as in that of an
argument. -/
theorem isEnclosedUnder_assign (v : Value) :
    v.isEnclosedUnder .assign .right = v.isHiddenAs .argument := by
  have hasks : (fun child : Operator => child.needsParens .assign .right) =
      fun child => child.needsParensAt Operator.argumentRank := by
    funext child
    cases child <;> rfl
  rw [Value.isEnclosedUnder, hasks, Value.isHiddenAs]

theorem seals_assignedValue {r : Rendition} (hsettle : r.Settles o)
    (hseal : r.value.isHiddenAs .argument = false → (r.write .expression).Seals o s) :
    r.assignedValue.Seals o s :=
  (sealsText_operand _ hsettle fun hbare => hseal (isEnclosedUnder_assign _ ▸ hbare)).bind
    fun _ ht => ensuresIn_pure ((Draft.sealed_of Text.sealed_equals).append (Draft.sealed_of ht))

end Rules

namespace PartsSeal

/-- A part that gets parentheses where operators ask for them. -/
theorem enclosed (h : PartsSeal o s kind field c) (hown : kind.owns f = true)
    (asks : Operator → Bool)
    (hhides : Value.hides s kind field f (field f) → (field f).isEnclosed asks = true) :
    SealsText o (s.inField kind f) (do
      let text ← (c f).text .expression
      let child ← (c f).value.operator?
      return text.grouped (child.any asks)) := by
  refine Rules.sealsText_operand asks (h.settle.part rfl hown).whole fun hbare => ?_
  rw [h.value] at hbare
  refine h.write .expression hown rfl rfl fun hhidden => ?_
  rw [hhides hhidden] at hbare
  cases hbare

/-- The value of an assignment. -/
theorem assignedValue (h : PartsSeal o s kind field c) (hown : kind.owns f = true)
    (hhides : Value.hides s kind field f (field f) → (field f).isHiddenAs .argument = true) :
    (c f).assignedValue.Seals o (s.inField kind f) := by
  refine Rules.seals_assignedValue (h.settle.part rfl hown).whole fun hbare => ?_
  rw [h.value] at hbare
  refine h.write .expression hown rfl rfl fun hhidden => ?_
  rw [hhides hhidden] at hbare
  cases hbare

theorem hasBar_name (h : PartsSeal o s kind field c) (hown : kind.owns .name = true) :
    (field .name).hasBar = false := by
  rw [← Value.writesBar_of_owns_name hown s, Bool.eq_false_iff]
  exact fun hbar => h.quiet (.own hbar)

/-- A name that is written as it stands in the tree. -/
theorem word (h : PartsSeal o s kind field c) (hown : kind.owns .name = true) :
    (Draft.word (c .name).value).Sealed o := by
  refine Draft.sealed_word (h.settle.isWord_name rfl hown) fun text htext => ?_
  rw [h.value] at htext
  exact Value.bar_not_mem_of_hasBar (h.hasBar_name hown) htext

end PartsSeal

namespace Rules

theorem seals_logical {op : Operator} {asWord : Bool}
    (hop : Text.isSmooth (if asWord then " " ++ op.symbol ++ " " else op.symbol) = true)
    (hleft : ((c .left).operand op .left).SealsText o s)
    (hright : ((c .right).operand op .right).SealsText o s) : (logical c op asWord).Seals o s := by
  refine hleft.bind fun left hl => hright.bind fun right hr => ensuresIn_ite (fun hword => ?_)
    fun hword => ?_
  · rw [if_pos hword] at hop
    exact ensuresIn_pure
      (((Draft.sealed_of hl).append (Draft.sealed_lit hop)).append (Draft.sealed_of hr))
  · rw [if_neg hword] at hop
    exact ensuresIn_pure (Draft.sealed_of (Text.sealed_joinInfix hop hl hr))

theorem seals_negation (h : PartsSeal o s .logicalNot field c) : (negation c).Seals o s :=
  (h.enclosed (f := .expression) rfl _ id).bind fun _ ht =>
    ensuresIn_pure (Draft.sealed_afterKeyword (by decide) (by decide) ht)

theorem seals_range (h : PartsSeal o s .range field c) : (range c).Seals o s := by
  have hop : (Draft.lit (if (c .exclusive).value.isTrue then Operator.exclusiveRange
      else .inclusiveRange).symbol).Sealed o := by
    split <;> exact sealed_lit (by decide)
  have hsymbol : (Draft.lit (if (c .exclusive).value.isTrue then Operator.exclusiveRange
      else .inclusiveRange).symbol).Settled o := fun t ht => (hop t ht).settled
  have hvalues : ((c .left).value.isNull || (c .right).value.isNull) =
      ((field .left).isNull || (field .right).isNull) := by rw [h.value, h.value]
  have hoperator : (if (c .exclusive).value.isTrue then Operator.exclusiveRange
      else .inclusiveRange) = Value.rangeOperator field := by rw [h.value]; rfl
  have hleft := (h.settle.part (f := .left) rfl rfl).whole
  have hright := (h.settle.part (f := .right) rfl rfl).whole
  cases hopen : ((field .left).isNull || (field .right).isNull) with
  | true =>
    refine ((settlesText_ifPresent (hleft.operand _ _)).inSetting s).bind fun left hl =>
      ((settlesText_ifPresent (hright.operand _ _)).inSetting s).bind fun right hr =>
        ensuresIn_pure ?_
    rw [hvalues, hopen]
    exact (((Draft.settled_of hl).append hsymbol).append
      (Draft.settled_of hr)).sealed_parenthesized
  | false =>
    rw [hopen] at hvalues
    have hinside {f : Field} (side : Side) (hown : Kind.range.owns f = true)
        (hhides : Value.hides s .range field f (field f) ↔
          ((field .left).isNull || (field .right).isNull) = true ∨
            (field f).isEnclosedUnder (Value.rangeOperator field) side = true) :
        SealsText o (s.inField .range f)
          ((c f).ifPresent ((c f).operand (if (c .exclusive).value.isTrue then
            Operator.exclusiveRange else .inclusiveRange) side)) := by
      rw [hoperator]
      exact ensuresIn_ifPresent Text.sealed_nil fun _ => h.enclosed hown _ fun hhidden =>
        (hhides.mp hhidden).resolve_left (by rw [hopen]; exact Bool.false_ne_true)
    refine (hinside (f := .left) .left rfl Iff.rfl).bind fun left hl =>
      (hinside (f := .right) .right rfl Iff.rfl).bind fun right hr => ensuresIn_pure ?_
    rw [hvalues]
    exact ((sealed_of hl).append hop).append (sealed_of hr)

theorem seals_assignment (hname : (Draft.word (c .name).value).Sealed o)
    (hvalue : (c .value).assignedValue.Seals o s) : (assignment c).Seals o s :=
  hvalue.bind fun _ hd => ensuresIn_pure (hname.append hd)

theorem seals_localAssignment (hname : (Draft.word (c .name).value).Sealed o)
    (hvalue : (c .value).assignedValue.Seals o s) : (localAssignment c).Seals o s :=
  EnsuresIn.after fun _ => seals_assignment hname hvalue

theorem seals_compoundAssignment (h : PartsSeal o s .operatorWrite field c) :
    (compoundAssignment c).Seals o s := by
  have hoperator : (Draft.word (c .operator).value).Sealed o := by
    refine Draft.sealed_word (h.settle.isWord_operator rfl rfl) fun text htext => ?_
    rw [h.value] at htext
    exact Value.bar_not_mem_of_hasBar (Bool.eq_false_iff.mpr fun hbar => h.quiet (.own hbar)) htext
  have htarget := (h.write (f := .target) .expression rfl rfl rfl False.elim).built
  have hvalue := h.enclosed (f := .value) rfl _ fun hhidden =>
    (isEnclosedUnder_assign (field .value)).trans hhidden
  have hrest : SealsText o s ((c .target).text .expression) → (do
      let text ← (c .target).text .expression
      if text.isEmpty then throw .emptyText
      let gap := if text.endsWith Text.isNameMark then Draft.lit " " else []
      let value ← (c .value).operand .assign .right
      return Draft.of text ++ gap ++ Draft.word (c .operator).value ++ Draft.of value :
        Writer Draft).Seals o s := fun htarget =>
    htarget.bind fun _ ht => ensuresIn_ite (fun _ => ensuresIn_throw _) fun _ =>
      hvalue.bind fun _ hu => ensuresIn_pure ((((sealed_of ht).append
        (sealed_ite (sealed_lit (by decide)))).append hoperator).append (sealed_of hu))
  rw [compoundAssignment]
  by_cases hlocal : (c .target).value.isKind .localRead = true
  · simp only [hlocal, if_true]
    exact EnsuresIn.after fun _ => hrest htarget
  · simp only [hlocal]
    exact EnsuresIn.after (w := pure ()) fun _ => hrest htarget

/-- Two colons and the name after them are one piece. -/
theorem sealed_inNamespace {name : Value} (h : name.IsWord) (htext : name.isText = true)
    (hbar : name.hasBar = false) : (Draft.lit "::" ++ Draft.word name).Sealed o := by
  intro t ht
  obtain ⟨text, htext⟩ := Option.isSome_iff_exists.mp htext
  have hsettled := settled_inNamespace (o := o) h (by rw [Value.isText, htext]; rfl) t ht
  rw [Draft.word, htext] at ht
  cases (Draft.build_append (Draft.build_lit "::") (Draft.build_lit text)).symm.trans ht
  refine hsettled.sealed ?_
  have hname := Value.bar_not_mem_of_hasBar hbar htext
  simp [Text.lit, hname]

theorem seals_constantPath (h : PartsSeal o s .constantPath field c) :
    (constantPath c).Seals o s := by
  have hname : (Draft.lit "::" ++ Draft.word (c .name).value).Sealed o := by
    refine sealed_inNamespace (h.settle.isWord_name rfl rfl)
      (Value.isText_of_isName (h.settle.isTyped (f := .name) rfl rfl)) ?_
    rw [h.value]
    exact h.hasBar_name rfl
  refine (ensuresIn_ifPresent Text.sealed_nil fun _ =>
    h.enclosed (f := .parent) rfl _ id).bind fun parent hp => ensuresIn_pure ?_
  rw [List.append_assoc]
  exact (sealed_of hp).append hname

/-! ## Arguments and elements -/

theorem sealsText_arguments {items : List Rendition}
    (h : ∀ e ∈ items, (e.write .argument).Seals o s) : (arguments items none).SealsText o s := by
  refine (ensuresIn_mapM fun e he => ?_).bind fun _ hts =>
    ensuresIn_pure (Text.sealed_commaSeparated hts)
  obtain he | he := List.mem_append.mp he
  · exact (h e he).built
  · cases he

theorem sealsText_hashElements {r : FieldRendition}
    (h : ∀ e ∈ r.elements, (e.write .hashElement).Seals o s) : (hashElements r).SealsText o s :=
  (ensuresIn_sequence h).bind fun _ hitems =>
    (ensuresIn_mapM fun e he => (hitems e he).built).bind fun _ hts =>
      ensuresIn_pure (Text.sealed_commaSeparated hts)

theorem sealsText_spread {stars : String} (hstars : Text.isSmooth stars = true)
    {r : FieldRendition} (h : r.memberOperand.SealsText o s) : (spread stars r).SealsText o s :=
  (ensuresIn_ifPresent Text.sealed_nil fun _ => h).bind fun _ ht =>
    ensuresIn_pure ((Text.sealed_lit hstars).append ht)

theorem sealed_keyLabel {key : Value} {label : Text} (h : keyLabel? key = .ok (some label)) :
    label.Sealed o := by
  have hsettled := settled_keyLabel (o := o) h
  unfold keyLabel? at h
  split at h
  · split at h
    · rename_i name _
      have hlabel := Except.ok.inj h
      unfold Literal.label? at hlabel
      split at hlabel
      · rename_i hidentifier
        cases hlabel
        refine hsettled.sealed ?_
        have hbar := Lexer.bar_not_mem_of_isIdentifier hidentifier
        simp [hbar]
      · cases hlabel
    · cases h
  · cases h

theorem sealsText_pair (h : PartsSeal o s .pair field c) : (pair c).SealsText o s := by
  have hkey := (h.write (f := .key) .argument rfl rfl rfl id).built
  have hvalue := (h.write (f := .value) .argument rfl rfl rfl id).built
  refine (ensuresIn_lift fun _ hlabel => hlabel).bind fun label? hlabel => ?_
  cases label? with
  | some label =>
    exact hvalue.bind fun _ ht =>
      ensuresIn_pure (Text.sealed_joinLabel (sealed_keyLabel hlabel) ht)
  | none =>
    exact hkey.bind fun _ hs => hvalue.bind fun _ ht =>
      ensuresIn_pure (Text.sealed_joinInfix (by decide) hs ht)

theorem sealsText_hashElement (h : PartsSeal o s kind field c) :
    (hashElement (.node kind field) c).SealsText o s := by
  cases kind
  case pair => exact sealsText_pair h
  case doubleSplat => exact sealsText_spread (by decide) (h.enclosed (f := .value) rfl _ id)
  all_goals exact ensuresIn_throw _

/-- A spread value never gets parentheses, and any other gets them if operators ask for them. -/
theorem sealsText_argument {asExpression : Writer Draft} (hexpression : asExpression.Settles o)
    (hparts : ¬(Value.node kind field).ShowsBar s → PartsSeal o s kind field c)
    (hseal : ¬(Value.node kind field).ShowsBar s → asExpression.Seals o s)
    (hquiet : (Value.node kind field).isHiddenAs .argument = true ∨
      ¬(Value.node kind field).ShowsBar s) :
    (argument (.node kind field) c asExpression).SealsText o s := by
  have hvalue : SealsText o s (do
      let text ← asExpression.built
      let child ← (Value.node kind field).operator?
      return text.grouped (child.any fun child => child.needsParensAt Operator.argumentRank)) :=
    sealsText_enclosed _ hexpression.built fun hbare =>
      (hseal (hquiet.resolve_left (Bool.eq_false_iff.mp hbare))).built
  cases kind
  case splat =>
    have h := hparts (hquiet.resolve_left Bool.false_ne_true)
    exact sealsText_spread (by decide) (h.enclosed (f := .expression) rfl _ id)
  case blockArgument =>
    have h := hparts (hquiet.resolve_left Bool.false_ne_true)
    exact sealsText_spread (by decide) (h.enclosed (f := .expression) rfl _ id)
  case doubleSplat =>
    exact sealsText_hashElement (hparts (hquiet.resolve_left Bool.false_ne_true))
  case keywordHash =>
    have h := hparts (hquiet.resolve_left Bool.false_ne_true)
    exact sealsText_hashElements (h.writeEach (f := .elements) _ rfl rfl (fun _ => rfl)
      fun _ hhidden => absurd rfl hhidden)
  all_goals exact hvalue

/-! ## Parameters -/

/-- The name of a parameter with a value, by itself and as a label. -/
theorem exists_sealed_name (h : PartsSeal o s kind field c) (hname : kind.has .name = true)
    (hvalue : kind.has .value = true) :
    ∃ text : String, (c .name).value = .scalar (.str text) ∧ (Text.lit text).Sealed o ∧
      (Text.lit text ++ Text.lit ":").Sealed o := by
  obtain ⟨text, htext, hclosed, hlabel⟩ := h.settle.exists_name hname hvalue
  have hbar := Value.bar_not_mem_of_hasBar (h.hasBar_name (Kind.owns_of_has (by decide) hname))
    (by rw [← h.value, htext]; rfl)
  have hsplit : Text.lit text ++ Text.lit ":" = Text.ofChars (text.toList ++ [':']) := by
    simp [Text.lit, Text.ofChars]
  refine ⟨text, htext, Text.sealed_ofChars hclosed (Lexer.barless_of_not_mem hbar), ?_⟩
  rw [hsplit]
  exact Text.sealed_ofChars hlabel (Lexer.barless_of_not_mem (by simp [hbar]))

theorem sealsText_parameter (h : PartsSeal o s kind field c) {sign : String}
    (hsign : Text.isSmooth sign = true) :
    (parameter (.node kind field) c sign).SealsText o s := by
  have hlit : (Text.lit sign).Sealed o := Text.sealed_lit hsign
  refine ((ensures_require (.node kind field) .name).inSetting s).bind fun _ hhas =>
    ensuresIn_ite (fun _ => ensuresIn_pure hlit) fun _ => EnsuresIn.after fun _ => ?_
  have hown := Kind.owns_of_has (by decide) hhas
  split
  · rename_i name hname
    have hclosed := (h.settle.isWord_name rfl hown name hname).closed
    rw [h.value] at hname
    have hbar := Value.bar_not_mem_of_hasBar (h.hasBar_name hown) hname
    exact ensuresIn_pure
      (hlit.append (Text.sealed_ofChars hclosed (Lexer.barless_of_not_mem hbar)))
  · exact ensuresIn_throw _

/-- The value of a parameter, or of an assignment that stands in its place. -/
theorem seals_default (h : PartsSeal o s kind field c) (hname : kind.has .name = true)
    (hvalue : kind.has .value = true) : ((c .value).text .argument).SealsText o s := by
  have hplace : Value.hides s kind field .value (field .value) =
      ((field .value).isHiddenAs .argument = true) ∧ s.inField kind .value = s := by
    revert hname hvalue
    cases kind <;>
      first
      | exact fun hname => absurd hname (by decide)
      | exact fun _ hvalue => absurd hvalue (by decide)
      | exact fun _ _ => ⟨rfl, rfl⟩
  have hwrite := h.write (f := .value) .argument (Kind.owns_of_has (by decide) hvalue)
    rfl rfl fun hhidden => hplace.1 ▸ hhidden
  rw [hplace.2] at hwrite
  exact hwrite.built

theorem sealsText_optionalParameter (h : PartsSeal o s kind field c) :
    (optionalParameter (.node kind field) c).SealsText o s := by
  refine ((ensures_require (.node kind field) .name).inSetting s).bind fun _ hname =>
    EnsuresIn.after fun _ => ((ensures_require (.node kind field) .value).inSetting s).bind
      fun _ hvalue => ?_
  obtain ⟨text, heq, hsealed, -⟩ := exists_sealed_name h hname hvalue
  refine (seals_default h hname hvalue).bind fun _ ht =>
    ((ensures_shown (Q := (· = text)) (congrArg Value.display heq)).inSetting s).bind ?_
  rintro _ rfl
  refine ensuresIn_pure ?_
  exact (hsealed.append Text.sealed_equals).append ht

theorem sealsText_keywordParameter (h : PartsSeal o s kind field c) :
    (keywordParameter (.node kind field) c).SealsText o s := by
  refine ((ensures_require (.node kind field) .name).inSetting s).bind fun _ hname =>
    EnsuresIn.after fun _ =>
      ((ensures_shown (Q := (· = (c .name).value.display)) rfl).inSetting s).bind ?_
  rintro _ rfl
  refine ((ensures_require (.node kind field) .value).inSetting s).bind fun _ hvalue => ?_
  obtain ⟨text, heq, -, hlabel⟩ := exists_sealed_name h hname hvalue
  have hsealed : (Text.lit (c .name).value.display ++ Text.lit ":").Sealed o := by
    rw [heq]
    exact hlabel
  exact ensuresIn_ite (fun _ => ensuresIn_pure hsealed) fun _ =>
    (seals_default h hname hvalue).bind fun _ ht =>
      ensuresIn_pure (Text.sealed_joinLabel hsealed ht)

/-- The parameters of a group. -/
theorem ensuresIn_parameterGroup {r : FieldRendition} {role : Role}
    (h : ∀ e ∈ r.elements, (e.write role).Seals o s) :
    (parameterGroup r role).EnsuresIn s fun ts => ∀ t ∈ ts, t.Sealed o :=
  (ensuresIn_sequence h).bind fun _ hitems => ensuresIn_mapM fun e he => (hitems e he).built

theorem ensuresIn_singleParameter {r : FieldRendition} {sign : String}
    (h : (r.write (.parameter sign)).Seals o s) :
    (singleParameter r sign).EnsuresIn s fun ts => ∀ t ∈ ts, t.Sealed o :=
  ensuresIn_ifPresent (List.forall_mem_nil _) fun _ => h.built.bind fun _ ht =>
    ensuresIn_pure (List.forall_mem_singleton.mpr ht)

theorem sealsText_parameters (h : PartsSeal o s kind field c) :
    (parameters (.node kind field) c).SealsText o s := by
  refine ((ensures_require (.node kind field) .requireds).inSetting s).bind fun _ hhas => ?_
  cases Kind.eq_of_has_requireds hhas
  have group {f : Field} (hown : Kind.parameters.owns f = true) (role : Role)
      (hrole : role.isBarless = true) (hfits : ∀ v : Value, v.fits role = true)
      (hhides : ∀ v, ¬Value.hides s .parameters field f v) :=
    ensuresIn_parameterGroup (h.writeEach role hown hrole hfits
      fun v hhidden => absurd hhidden (hhides v))
  have single {f : Field} (hown : Kind.parameters.owns f = true) (sign : String)
      (hsign : Text.isSmooth sign = true) (hhides : ¬Value.hides s .parameters field f (field f)) :=
    ensuresIn_singleParameter (h.write (.parameter sign) hown hsign rfl
      fun hhidden => absurd hhidden hhides)
  refine (group (f := .requireds) rfl (.parameter "") (by decide) (fun _ => rfl)
      fun _ => id).bind fun _ h₁ =>
    (group (f := .optionals) rfl .optionalParameter rfl (fun _ => rfl) fun _ => id).bind fun _ h₂ =>
    (single (f := .rest) rfl "*" (by decide) id).bind fun _ h₃ =>
    (group (f := .posts) rfl (.parameter "") (by decide) (fun _ => rfl)
      fun _ => id).bind fun _ h₄ =>
    (group (f := .keywords) rfl .keywordParameter rfl (fun _ => rfl) fun _ => id).bind fun _ h₅ =>
    (single (f := .keywordRest) rfl "**" (by decide) id).bind fun _ h₆ =>
    (single (f := .block) rfl "&" (by decide) id).bind fun _ h₇ =>
    ensuresIn_pure (Text.sealed_commaSeparated ?_)
  simp only [List.forall_mem_append]
  exact ⟨⟨⟨⟨⟨⟨h₁, h₂⟩, h₃⟩, h₄⟩, h₅⟩, h₆⟩, h₇⟩

/-! ## Literals -/

theorem seals_integer {value : Value} (h : value.isWhole = true) :
    (liftM (integer value) : Writer Draft).Seals o s := by
  refine (ensures_integer ?_).inSetting s
  cases value with
  | scalar x =>
    have hsubset := Lexer.display_subset h
    refine sealed_of (Text.sealed_ofChars (Lexer.closed_of_subset hsubset)
      (Lexer.barless_of_not_mem fun hbar => ?_))
    exact Lexer.bar_not_mem_literalChars (hsubset hbar)
  | _ => cases h

theorem seals_float (value : Value) : (liftM (float value) : Writer Draft).Seals o s := by
  refine ensuresIn_lift fun d hd => ?_
  cases value with
  | scalar x =>
    obtain ⟨text, htext, hd⟩ := exists_of_bind_eq_ok hd
    cases hd
    exact sealed_of (Text.sealed_ofChars (Lexer.closed_float htext)
      (Lexer.barless_of_not_mem (Lexer.bar_not_mem_float htext)))
  | _ => cases hd

theorem seals_symbol (h : PartsSeal o s .symbol field c) :
    (liftM (symbol (c .value).value) : Writer Draft).Seals o s := by
  refine ensuresIn_lift fun d hd => ?_
  rw [h.value] at hd
  unfold symbol at hd
  split at hd
  · rename_i text htext
    cases hd
    refine sealed_of (Text.sealed_ofChars (Lexer.closed_symbol _)
      (Lexer.barless_symbol fun hbare hbar => h.quiet (.own ?_)))
    rw [Value.writesBar, Value.hasBar, htext]
    simp [hbare, hbar]
  · cases hd

theorem seals_string {content : Value} (h : content.isText = true) :
    (liftM (string content) : Writer Draft).Seals o s := by
  refine ensuresIn_lift fun d hd => ?_
  obtain ⟨text, htext⟩ := Option.isSome_iff_exists.mp h
  rw [string, Content.literal, htext] at hd
  cases hd
  exact sealed_of (Text.sealed_ofChars (Lexer.closed_string _) (Lexer.barless_string _))

theorem seals_interpolated (h : (c .parts).Settles o) : (interpolated c).Seals o s := by
  have hsettled := (settles_interpolated h).inSetting s
  intro l d l' hrun
  obtain ⟨t, ht, rfl⟩ := (ensures_interpolated h).inSetting s l d l' hrun
  refine sealed_of ⟨hsettled l _ l' hrun _ (Draft.build_of _), fun m frames hm => ?_⟩
  simp only [Text.spell_append, Text.spell_ofChars]
  exact ht.firstBar?_quoted (.inl hm) frames

theorem seals_array (h : (c .elements).Settles o) : (array c).Seals o s := by
  refine (h.sequence.inSetting s).bind fun items hitems =>
    ((settlesText_arguments hitems forall_mem_none).inSetting s).bind fun _ ht =>
      ensuresIn_pure ?_
  exact (Draft.settled_of ht).sealed_between rfl rfl

theorem seals_hash (h : (c .elements).Settles o) : (hash c).Seals o s := by
  refine ((settlesText_hashElements h).inSetting s).bind fun _ ht => ensuresIn_pure ?_
  exact (Draft.settled_of ht).sealed_between rfl rfl

/-! ## Statements -/

theorem sealed_comment {field : Field → Value}
    (h : (Value.node .comment field).isSpelled = true) (hbar : (field .text).hasBar = false) :
    (Draft.lit "#" ++ Draft.word (field .text) ++ Draft.lit "\n").Sealed o := by
  intro t ht
  have htyped : (field .text).isText = true := Value.isTyped_of_isSpelled h (f := .text) rfl
  obtain ⟨text, htext⟩ := Option.isSome_iff_exists.mp htyped
  have hsettled := settled_comment (o := o) h t ht
  have hnone := Value.bar_not_mem_of_hasBar hbar htext
  rw [Draft.word, htext] at ht
  cases (Draft.build_append (Draft.build_append (Draft.build_lit "#") (Draft.build_lit text))
    (Draft.build_lit "\n")).symm.trans ht
  exact hsettled.sealed (by simp [Text.lit, hnone])

/-- A statement that is kept; a comment is written without a rule. -/
theorem seals_writeOne {x : Sequence.Statement} (hspelled : x.value.isSpelled = true)
    (hkept : Sequence.isKept s x.value = true)
    (hquiet : x.value.isHiddenAs .statement = true ∨ ¬x.value.ShowsBar s)
    (hwrite : x.write.Seals o s) : (Sequence.writeOne false x).Seals o s := by
  unfold Sequence.writeOne
  split
  · rename_i field heq
    rw [heq] at hspelled hkept hquiet
    have hkeeps : s.keepComments = true := hkept
    have hbar : (field .text).hasBar = false := by
      have hown := (hquiet.resolve_left Bool.false_ne_true).imp Value.ShowsBar.own
      rw [Value.writesBar, hkeeps, Bool.true_and] at hown
      exact Bool.eq_false_iff.mpr hown
    exact ensuresIn_pure (sealed_comment hspelled hbar)
  · exact ensuresIn_pure (sealed_lit (by decide))
  · exact hwrite

theorem seals_writeFrom (state : SeparatorState) {xs : List Sequence.Statement}
    (h : ∀ x ∈ xs, (Sequence.writeOne false x).Seals o s) :
    (Sequence.writeFrom false state xs).Seals o s := by
  induction xs generalizing state with
  | nil => exact ensuresIn_pure sealed_nil
  | cons x xs ih =>
    rw [List.forall_mem_cons] at h
    exact h.1.bind fun _ hhead => (ih _ h.2).bind fun _ htail =>
      ensuresIn_pure (((sealed_ite sealed_separator).append hhead).append htail)

theorem seals_sequence {xs : List Sequence.Statement}
    (h : ∀ x ∈ xs, Sequence.isKept s x.value = true → (Sequence.writeOne false x).Seals o s) :
    (Sequence.write false xs).Seals o s := by
  refine Writer.ensuresIn_read.bind ?_
  rintro s rfl
  refine seals_writeFrom .start fun x hx => ?_
  obtain ⟨hx, hkept⟩ := List.mem_filter.mp hx
  exact h x hx hkept

theorem seals_sequenceOf (h : PartsSeal o s .statements field c) :
    (sequenceOf false (c .body)).Seals o s := by
  have hhides (v : Value) (hhidden : Value.hides s .statements field .body v) :
      v.isHiddenAs .statement = true := by
    obtain hkind | ⟨hkind, -⟩ | hhidden := hhidden
    · cases hkind
    · cases hkind
    · exact hhidden
  refine (FieldRendition.ensures_sequence.inSetting s).bind ?_
  rintro _ rfl
  refine seals_sequence fun x hx hkept => ?_
  obtain ⟨e, he, rfl⟩ := List.mem_map.mp hx
  refine seals_writeOne ((h.settle.part rfl rfl).each e he).spelled hkept
    (h.quiet_of_mem rfl he hhides) ?_
  exact h.writeEach (f := .body) .statement rfl rfl (fun _ => rfl) hhides e he

/-- A body between a header and a keyword. -/
theorem seals_clause {r : FieldRendition} (h : (r.write (.body false)).Seals o s) :
    (Sequence.clause r).Seals o s :=
  h.bind fun _ hd => EnsuresIn.after fun _ => EnsuresIn.after fun _ =>
    ensuresIn_pure ((sealed_separator.append hd).append (sealed_ite sealed_separator))

end Rules
end TerseRuby
