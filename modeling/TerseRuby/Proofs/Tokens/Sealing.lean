import TerseRuby.Proofs.Tokens.Exposed

/-!
# Trees without a bar to show

The lemmas `seals_…` go on with calls, definitions and control structures, and then with all kinds
of nodes in all roles.  The main result is `Value.seals_rendition`.  A tree with proper names that
shows no bar has a text without one outside of brackets and strings.
-/

set_option autoImplicit false

namespace TerseRuby

open Writer (EnsuresIn Seals SealsText ensuresIn_pure ensuresIn_throw ensuresIn_lift ensuresIn_ite
  ensuresIn_mapM)
open FieldRendition (settlesText_ifPresent ensuresIn_ifPresent ensuresIn_sequence)
open Draft (settled_of sealed_of sealed_lit sealed_nil sealed_separator sealed_ite
  sealed_afterKeyword)

variable {o : Options} {s : Setting} {kind : Kind} {field : Field → Value}
  {c : Field → FieldRendition} {f : Field}

/-- An argument that is written without brackets around it. -/
theorem PartsSeal.bareArgument (h : PartsSeal o s .call field c) {e : Rendition}
    (he : e ∈ (c .arguments).elements) (hbare : Value.IsBareArgument field e.value) :
    (e.write .expression).Seals o s :=
  (h.parts .arguments rfl).each e he .expression rfl rfl
    (h.quiet_of_eq_or_mem (f := .arguments) rfl (.inr (h.elements .arguments ▸
      List.mem_map_of_mem he)) fun hhidden => absurd hbare hhidden)

/-- The body of a definition or a block between its header and its keyword. -/
theorem PartsSeal.bodyClause (h : PartsSeal o s kind field c) (hown : kind.owns .body = true)
    (hparentheses : kind ≠ .parentheses) (hblock : kind = .block → s.braceBlocks = false) :
    (Sequence.clause (c .body)).Seals o (s.inField kind .body) := by
  refine Rules.seals_clause (h.write (.body false) hown rfl rfl fun hhidden => ?_)
  obtain hkind | ⟨hkind, hbraces⟩ | hhidden := hhidden
  · exact absurd hkind hparentheses
  · cases (hblock hkind).symm.trans hbraces
  · exact hhidden

/-- The statements of a branch or a loop between the header and the keyword. -/
theorem PartsSeal.clause (h : PartsSeal o s kind field c) (hown : kind.owns .statements = true) :
    (Sequence.clause (c .statements)).Seals o s := by
  have hclause := Rules.seals_clause (h.write (.body false) hown rfl rfl id)
  rwa [Setting.inField_statements] at hclause

namespace Rules

/-! ## Calls and blocks -/

theorem seals_unaryCall {op : Operator} (h : ((c .receiver).operand op .right).SealsText o s) :
    (unaryCall c op).Seals o s := by
  refine h.bind fun operand ht => ?_
  split
  · exact ensuresIn_ite (fun _ => ensuresIn_throw _) fun _ => ensuresIn_pure
      (((sealed_lit (by decide)).append (sealed_ite (sealed_lit (by decide)))).append
        (sealed_of ht))
  · exact ensuresIn_pure ((sealed_lit (by decide)).append (sealed_of ht))
  · refine ensuresIn_pure (Draft.Sealed.append ?_
      (sealed_of (Text.sealed_grouped ht.settled fun _ => ht)))
    split <;> exact sealed_lit (by decide)

/-- An operator between two operands is the name of the call. -/
theorem name_of_binary? {op : Operator} (h : CallShape.binary? field = .ok (some op)) :
    (field .name).text? = some op.symbol := by
  obtain ⟨found, hfound, h⟩ := exists_of_bind_eq_ok h
  have hop : found = some op := by
    cases found with
    | none => cases h
    | some found =>
      obtain ⟨single, -, h⟩ := exists_of_bind_eq_ok h
      have hboth := Except.ok.inj h
      split at hboth
      · exact hboth
      · cases hboth
  obtain ⟨_, -, hfound⟩ := exists_of_bind_eq_ok hfound
  rw [hop] at hfound
  obtain ⟨hsome, -⟩ := Option.filter_eq_some_iff.mp (Except.ok.inj hfound)
  obtain ⟨text, htext, hsymbol⟩ := Option.bind_eq_some_iff.mp hsome
  have hfound : (op.symbol == text) = true :=
    List.find?_some (p := fun op : Operator => op.symbol == text) hsymbol
  rw [htext, eq_of_beq hfound]

theorem isSmooth_of_binary? {op : Operator} (h : CallShape.binary? field = .ok (some op))
    (hbar : (field .name).hasBar = false) : Text.isSmooth op.symbol = true := by
  have hsmooth : ∀ op : Operator, '|' ∉ op.symbol.toList → Text.isSmooth op.symbol = true := by
    intro op
    cases op <;> decide
  exact hsmooth op (Value.bar_not_mem_of_hasBar hbar (name_of_binary? h))

theorem seals_binaryCall {op : Operator} (hop : Text.isSmooth op.symbol = true)
    {argument : Rendition} (hleft : ((c .receiver).operand op .left).SealsText o s)
    (hright : (argument.operand op .right).SealsText o s) :
    (binaryCall c op argument).Seals o s :=
  hleft.bind fun _ hs => hright.bind fun _ ht =>
    ensuresIn_pure (sealed_of (Text.sealed_joinInfix hop hs ht))

theorem sealed_dot : (dot c).Sealed o := by
  rw [dot]
  split <;> exact sealed_lit (by decide)

theorem sealed_brackets {keys : Text} (h : keys.Settled o) : (brackets keys).Sealed o :=
  (settled_of h).sealed_between rfl rfl

theorem seals_indexAssignment (h : (c .receiver).memberOperand.SealsText o s)
    {keys : List Rendition} (hkeys : ∀ e ∈ keys, e.Settles o) {value : Rendition}
    (hvalue : value.assignedValue.Seals o s) : (indexAssignment c keys value).Seals o s :=
  h.bind fun _ hs => ((settlesText_arguments hkeys forall_mem_none).inSetting s).bind fun _ ht =>
    hvalue.bind fun _ hd =>
      ensuresIn_pure (((sealed_of hs).append (sealed_brackets ht)).append hd)

/-- The name of an attribute, without the equals sign at its end. -/
theorem sealed_attributeName (h : PartsSeal o s .call field c)
    (hname : CallShape.isAttributeAssign (fun f => (c f).value) = .ok true) :
    (Draft.of (Text.ofChars ((c .name).value.text?.getD "").toList.dropLast)).Sealed o := by
  have hsettled := settled_attributeName (o := o) hname _ (Draft.build_of _)
  refine sealed_of (hsettled.sealed ?_)
  rw [Text.spell_ofChars, h.value]
  intro hmem
  cases htext : (field .name).text? with
  | none =>
    rw [htext] at hmem
    cases hmem
  | some text =>
    rw [htext] at hmem
    exact Value.bar_not_mem_of_hasBar (h.hasBar_name rfl) htext (List.dropLast_subset _ hmem)

theorem seals_attributeAssignment (h : PartsSeal o s .call field c)
    (hname : CallShape.isAttributeAssign (fun f => (c f).value) = .ok true)
    (hreceiver : (c .receiver).memberOperand.SealsText o s) {value : Rendition}
    (hvalue : value.assignedValue.Seals o s) : (attributeAssignment c value).Seals o s :=
  hreceiver.bind fun _ hs => hvalue.bind fun _ hd => ensuresIn_pure
    ((((sealed_of hs).append sealed_dot).append (sealed_attributeName h hname)).append hd)

theorem seals_indexAccess (h : PartsSettle o (.node .call field) c)
    (hreceiver : (c .receiver).memberOperand.SealsText o s) : (indexAccess c).Seals o s := by
  have hblock := forall_mem_blockArgument? (h.part (f := .block) rfl rfl)
  exact hreceiver.bind fun _ hs =>
    ((h.part (f := .arguments) rfl rfl).sequence.inSetting s).bind fun _ hitems =>
      ((settlesText_arguments hitems hblock).inSetting s).bind fun _ ht =>
        ensuresIn_pure ((sealed_of hs).append (sealed_brackets ht))

theorem seals_argumentList (h : PartsSettle o (.node .call field) c) :
    (argumentList c).Seals o s := by
  have hempty : (Draft.lit "()").Sealed o := by
    refine sealed_of (Text.sealed_ofChars (Lexer.closed_nil.between rfl rfl) ?_)
    exact Lexer.barless_of_not_mem (by decide)
  have hblock := forall_mem_blockArgument? (h.part (f := .block) rfl rfl)
  refine ensuresIn_ite (fun _ => ?_) fun _ => ensuresIn_ite (fun _ => ensuresIn_pure sealed_nil)
    fun _ => ?_
  · exact ((h.part (f := .arguments) rfl rfl).sequence.inSetting s).bind fun _ hitems =>
      ((settlesText_arguments hitems hblock).inSetting s).bind fun _ ht =>
        ensuresIn_pure (settled_of ht).sealed_parenthesized
  · exact EnsuresIn.after fun _ => EnsuresIn.after fun _ => EnsuresIn.after fun _ =>
      ensuresIn_ite (fun _ => ensuresIn_pure hempty) fun _ => ensuresIn_pure sealed_nil

theorem seals_attachedBlock {r : FieldRendition}
    (h : r.value.isKind .block = true → (r.write .block).Seals o s) :
    (attachedBlock r).Seals o s :=
  ensuresIn_ite h fun _ => ensuresIn_pure sealed_nil

theorem seals_plainCall (h : PartsSeal o s .call field c)
    (hreceiver : (c .receiver).memberOperand.SealsText o s) : (plainCall c).Seals o s := by
  have hblock : (attachedBlock (c .block)).Seals o s := seals_attachedBlock fun hkind => by
    rw [h.value] at hkind
    refine h.write (f := .block) .block rfl rfl hkind fun hhidden => ?_
    have hnone : (field .block).isKind .block = false := hhidden
    rw [hkind] at hnone
    cases hnone
  refine (ensuresIn_ifPresent sealed_nil fun _ => hreceiver.bind fun _ hs =>
    ensuresIn_pure ((sealed_of hs).append sealed_dot)).bind fun _ hfront => ?_
  exact (seals_argumentList h.settle).bind fun _ hlist => hblock.bind fun _ hend =>
    ensuresIn_pure (((hfront.append (h.word rfl)).append hlist).append hend)

/-- The receiver of a call of some form. -/
theorem sealsText_receiver (h : PartsSeal o s .call field c) {shape : CallShape}
    (hshape : CallShape.of field = .ok shape) (asks : Operator → Bool)
    (hasks : (field .receiver).isHiddenReceiver (some shape) = (field .receiver).isEnclosed asks) :
    SealsText o s (do
      let text ← (c .receiver).text .expression
      let child ← (c .receiver).value.operator?
      return text.grouped (child.any asks)) := by
  refine h.enclosed (f := .receiver) rfl asks fun hhidden => ?_
  have hreceiver : (field .receiver).isHiddenReceiver (CallShape.of field).toOption = true :=
    hhidden
  rw [hshape] at hreceiver
  rw [← hasks]
  exact hreceiver

/-- The only argument of a call. -/
theorem exists_argument (h : PartsSeal o s .call field c)
    (hsingle : CallShape.isSingleValue (field .arguments) = .ok true) :
    ∃ e, (c .arguments).elements = [e] := by
  obtain ⟨-, v, hv⟩ := CallShape.of_isSingleValue hsingle
  rw [← h.elements] at hv
  obtain ⟨e, he, -⟩ := List.map_eq_singleton_iff.mp hv
  exact ⟨e, he⟩

theorem seals_call (h : PartsSeal o s .call field c) : (call c).Seals o s := by
  have hfields : (fun f => (c f).value) = field := funext h.value
  have hsettle := (h.settle.part (f := .arguments) rfl rfl).each
  rw [call, hfields]
  refine (ensuresIn_lift fun _ hshape => hshape).bind fun shape hshape => ?_
  have hreceiver := sealsText_receiver h hshape
  -- an argument that gets no brackets in a call of this form
  have hargument {e : Rendition} (he : e ∈ (c .arguments).elements)
      (hbare : Value.IsBareArgument field e.value) : (e.write .expression).Seals o s :=
    h.bareArgument he hbare
  unfold Value.IsBareArgument at hargument
  rw [hshape] at hargument
  obtain (rfl | rfl) | ⟨op, rfl, -⟩ | ⟨op, rfl, hbinary⟩ | ⟨rfl, -⟩ | ⟨rfl, hattribute⟩ :=
    CallShape.cases_of_eq_ok hshape
  · exact seals_plainCall h (hreceiver _ rfl)
  · exact seals_indexAccess h.settle (hreceiver _ rfl)
  · exact seals_unaryCall (hreceiver _ rfl)
  · obtain ⟨e, he⟩ := exists_argument h (CallShape.of_binary?_eq_some hbinary).1
    have hmem : e ∈ (c .arguments).elements := by simp [he]
    rw [he]
    exact seals_binaryCall (isSmooth_of_binary? hbinary (h.hasBar_name rfl)) (hreceiver _ rfl)
      (sealsText_operand _ (hsettle e hmem) fun hbare => hargument hmem hbare)
  · cases hlast : (c .arguments).elements.getLast? with
    | none => exact seals_plainCall h (hreceiver _ rfl)
    | some value =>
      have hmem : value ∈ (c .arguments).elements := List.mem_of_getLast? hlast
      have hvalue : (field .arguments).elements.getLast? = some value.value := by
        rw [← h.elements, List.getLast?_map, hlast]
        rfl
      exact seals_indexAssignment (hreceiver _ rfl)
        (fun e he => hsettle e (List.dropLast_subset _ he))
        (seals_assignedValue (hsettle value hmem) fun hbare => hargument hmem ⟨hvalue, hbare⟩)
  · obtain ⟨e, he⟩ := exists_argument h (CallShape.of_isAttributeAssign hattribute).1
    have hmem : e ∈ (c .arguments).elements := by simp [he]
    rw [he]
    exact seals_attributeAssignment h (hfields ▸ hattribute) (hreceiver _ rfl)
      (seals_assignedValue (hsettle e hmem) fun hbare => hargument hmem hbare)

/-- A call of the overridden method, or a call by name, with its block. -/
theorem seals_superCall (h : PartsSeal o s .superCall field c) : (superCall c).Seals o s := by
  have harguments := h.settle.part (f := .arguments) rfl rfl
  have hpassed := forall_mem_blockArgument? (h.settle.part (f := .block) rfl rfl)
  have hblock : (attachedBlock (c .block)).Seals o s := seals_attachedBlock fun hkind => by
    rw [h.value] at hkind
    refine h.write (f := .block) .block rfl rfl hkind fun hhidden => ?_
    rw [hhidden.2] at hkind
    cases hkind
  have hend (list : Draft) (hlist : list.Sealed o) : (do
      let block ← attachedBlock (c .block)
      return Draft.lit "super" ++ list ++ block).Seals o s :=
    hblock.bind fun _ hd =>
      ensuresIn_pure (((sealed_lit (by decide)).append hlist).append hd)
  unfold superCall
  dsimp only
  split
  · exact (harguments.sequence.inSetting s).bind fun _ hitems =>
      ((settlesText_arguments hitems hpassed).inSetting s).bind fun _ ht =>
        hend _ (settled_of ht).sealed_parenthesized
  · rename_i block hnull hsome
    have hwhole : block = (c .block).toRendition := by
      rw [blockArgument?] at hsome
      split at hsome <;> cases hsome
      rfl
    have hwrite := h.write (f := .block) .argument rfl rfl rfl fun hhidden => by
      rw [h.value, hhidden.1] at hnull
      cases hnull
    rw [hwhole]
    exact hwrite.built.bind fun _ ht => hend _ ((sealed_lit (by decide)).append (sealed_of ht))
  · exact hend _ sealed_nil

theorem seals_yieldCall (h : (c .arguments).Settles o) : (yieldCall c).Seals o s :=
  ensuresIn_ite (fun _ => (h.sequence.inSetting s).bind fun _ hitems =>
    ((settlesText_arguments hitems forall_mem_none).inSetting s).bind fun _ ht =>
      ensuresIn_pure ((sealed_lit (by decide)).append (settled_of ht).sealed_parenthesized))
    fun _ => ensuresIn_pure (sealed_lit (by decide))

/-- A block with braces is sealed by them, and one without has no parameters. -/
theorem seals_block (h : PartsSeal o s .block field c) : (block c).Seals o s := by
  have hown : (!s.braceBlocks && !(field .parameters).isNull) = false :=
    Bool.eq_false_iff.mpr fun hbar => h.quiet (.own hbar)
  have hparameters := (h.settle.part (f := .parameters) rfl rfl).whole
  have hbody := (h.settle.part (f := .body) rfl rfl).whole
  refine EnsuresIn.withLocals ?_ _
  cases hbraces : s.braceBlocks with
  | true =>
    refine ((settlesText_ifPresent (hparameters.text rfl rfl)).inSetting s).bind
      fun names hnames => ?_
    have hbars : Draft.Settled o
        (if names.isEmpty then [] else Draft.lit "|" ++ Draft.of names ++ Draft.lit "|") := by
      split
      · exact Draft.settled_nil
      · exact ((Draft.settled_lit (by decide)).append (settled_of hnames)).append
          (Draft.settled_lit (by decide))
    refine Writer.ensuresIn_read.bind ?_
    rintro _ rfl
    refine ensuresIn_ite (fun _ => ?_) fun hdo => absurd hbraces hdo
    refine ((hbody.write (.body false) rfl rfl).inSetting _).bind fun body hd =>
      ensuresIn_pure ?_
    rw [List.append_assoc (Draft.lit "\x7b")]
    exact (hbars.append hd).sealed_between rfl rfl
  | false =>
    have hnull : (field .parameters).isNull = true := by simpa [hbraces] using hown
    have hclause := h.bodyClause rfl (by decide) fun _ => hbraces
    refine EnsuresIn.bind (Q := (· = [])) ?_ ?_
    · refine ensuresIn_ite (fun _ => ensuresIn_pure rfl) fun hpresent => ?_
      rw [h.value] at hpresent
      exact absurd hnull hpresent
    rintro _ rfl
    refine Writer.ensuresIn_read.bind ?_
    rintro _ rfl
    refine ensuresIn_ite (fun hbrace => absurd hbrace (by simp [hbraces])) fun _ => ?_
    exact EnsuresIn.bind (EnsuresIn.withBraces hclause) fun _ hd => ensuresIn_pure
      ((((((sealed_lit (by decide)).append sealed_nil).append sealed_nil)).append hd).append
        (sealed_lit (by decide)))

/-- A call of output is written without brackets. -/
theorem seals_outputCall (h : PartsSeal o s .call field c) {l : Locals}
    (houtput : isOutputCall s l field = .ok true) {argument : Rendition} {rest : List Rendition}
    (hlist : (c .arguments).elements = argument :: rest) : (outputCall c argument).Seals o s := by
  obtain ⟨name, hname, hkeyword⟩ := isKeyword_of_isOutputCall houtput
  obtain ⟨hreceiver, -, -, v, hv⟩ := of_isOutputCall houtput
  have hmem : argument ∈ (c .arguments).elements := by simp [hlist]
  have hvalue : argument.value = v := by
    rw [← h.elements, hlist] at hv
    exact (List.cons.inj hv).1
  have hbare : Value.IsBareArgument field argument.value := by
    rw [Value.IsBareArgument, CallShape.of, if_pos hreceiver, hvalue]
    exact ⟨isOutputMethod_of_isOutputCall houtput, isOutputArgument_of_isOutputCall houtput hv⟩
  refine (h.bareArgument hmem hbare).built.bind fun _ ht =>
    ensuresIn_pure ?_
  rw [Draft.word, h.value, hname]
  exact sealed_afterKeyword hkeyword (Value.bar_not_mem_of_hasBar (h.hasBar_name rfl) hname) ht

/-! ## Definitions -/

theorem seals_methodReceiver (h : PartsSeal o s .methodDef field c) :
    (methodReceiver (c .receiver)).Seals o s := by
  have hsettle := (h.settle.part (f := .receiver) rfl rfl).whole
  cases hbare : (field .receiver).isKind .selfLiteral ||
      (field .receiver).inGroup Kind.isBareWord with
  | true =>
    have hwrite := h.write (f := .receiver) .expression rfl rfl rfl fun hhidden =>
      absurd (hbare.symm.trans hhidden) (by decide)
    exact hwrite.built.bind fun _ ht => ensuresIn_pure
      ((sealed_of (Text.sealed_grouped ht.settled fun _ => ht)).append (sealed_lit (by decide)))
  | false =>
    refine ((hsettle.text rfl rfl).inSetting s).bind fun _ ht => ensuresIn_pure ?_
    rw [h.value, hbare]
    exact (sealed_of (Text.sealed_grouped ht fun hnone => by cases hnone)).append
      (sealed_lit (by decide))

/-- The body of a definition, in a scope of its own. -/
theorem seals_scopedClause (h : PartsSeal o s kind field c) (hown : kind.owns .body = true)
    (hkind : kind ≠ .parentheses ∧ kind ≠ .block) :
    (Writer.inNewScope (Sequence.clause (c .body))).Seals o s := by
  have hclause := h.bodyClause hown hkind.1 fun hblock => absurd hblock hkind.2
  rw [Setting.inField_body s hkind.2] at hclause
  exact EnsuresIn.withLocals hclause _

theorem seals_methodDef (h : PartsSeal o s .methodDef field c) : (methodDef c).Seals o s := by
  have hparameters := (h.settle.part (f := .parameters) rfl rfl).whole
  have hbody := h.bodyClause rfl (by decide) fun hblock => absurd hblock (by decide)
  have hrest : Writer.Seals o s (Writer.inNewScope do
      let names ← (c .parameters).ifPresent ((c .parameters).text .parameters)
      let body ← Sequence.clause (c .body)
      return Draft.grouped (!names.isEmpty) (Draft.of names) ++ body) := by
    refine EnsuresIn.withLocals ?_ _
    refine ((settlesText_ifPresent (hparameters.text rfl rfl)).inSetting s).bind
      fun names hnames => hbody.bind fun _ hd => ensuresIn_pure (Draft.Sealed.append ?_ hd)
    cases names with
    | nil => exact sealed_of Text.sealed_nil
    | cons => exact (settled_of hnames).sealed_parenthesized
  exact (ensuresIn_ifPresent sealed_nil fun _ => seals_methodReceiver h).bind fun _ hd =>
    hrest.bind fun _ he => ensuresIn_pure (((((sealed_lit (by decide)).append hd).append
      (h.word rfl)).append he).append (sealed_lit (by decide)))

/-- The path of a class or module. -/
theorem sealsText_path (h : PartsSeal o s kind field c) (hown : kind.owns .constantPath = true)
    (hsame : s.inField kind .constantPath = s) :
    ((c .constantPath).text .expression).SealsText o s := by
  have hwrite := h.write (f := .constantPath) .expression hown rfl rfl False.elim
  rw [hsame] at hwrite
  exact hwrite.built

theorem seals_classDef (h : PartsSeal o s .classDef field c) : (classDef c).Seals o s :=
  (sealsText_path h rfl rfl).bind fun _ ht =>
    (ensuresIn_ifPresent sealed_nil fun _ => (h.enclosed (f := .superclass) rfl _ id).bind
      fun _ hs => ensuresIn_pure ((sealed_lit (by decide)).append (sealed_of hs))).bind
        fun _ hd => (seals_scopedClause h rfl (by decide)).bind fun _ he => ensuresIn_pure
          (((((sealed_lit (by decide)).append (sealed_of ht)).append hd).append he).append
            (sealed_lit (by decide)))

theorem seals_singletonClass (h : PartsSeal o s .singletonClass field c) :
    (singletonClass c).Seals o s :=
  (h.enclosed (f := .expression) rfl _ id).bind fun _ ht =>
    (seals_scopedClause h rfl (by decide)).bind fun _ hd => ensuresIn_pure
      ((((sealed_lit (by decide)).append (sealed_of ht)).append hd).append
        (sealed_lit (by decide)))

theorem seals_moduleDef (h : PartsSeal o s .moduleDef field c) : (moduleDef c).Seals o s :=
  (sealsText_path h rfl rfl).bind fun _ ht => (seals_scopedClause h rfl (by decide)).bind
    fun _ hd => ensuresIn_pure ((((sealed_lit (by decide)).append (sealed_of ht)).append
      hd).append (sealed_lit (by decide)))

/-! ## Control structures -/

theorem seals_elseBranch (h : PartsSeal o s kind field c) :
    (elseBranch (.node kind field) c).Seals o s :=
  ensuresIn_ite (fun _ => ensuresIn_pure sealed_nil) fun _ => ensuresIn_ite
    (fun hkind => by
      cases eq_of_beq hkind
      exact (h.clause rfl).bind fun _ hd =>
        ensuresIn_pure ((sealed_lit (by decide)).append hd))
    fun _ => ensuresIn_throw _

theorem seals_conditional (h : PartsSeal o s .ifThen field c) {keyword : String}
    (hkeyword : Text.isKeyword keyword = true) (hbar : '|' ∉ keyword.toList) :
    (conditional keyword c).Seals o s :=
  (h.write (f := .predicate) .expression rfl rfl rfl False.elim).built.bind fun _ ht =>
    (h.clause rfl).bind fun _ hd =>
      (h.write (f := .alternate) .alternate rfl rfl rfl False.elim).bind fun _ he =>
        ensuresIn_pure (((sealed_afterKeyword hkeyword hbar ht).append hd).append he)

theorem seals_alternate (h : PartsSeal o s kind field c) :
    (alternate (.node kind field) c).Seals o s :=
  ensuresIn_ite
    (fun hkind => by
      cases eq_of_beq hkind
      exact seals_conditional h (by decide) (by decide))
    fun _ => seals_elseBranch h

theorem seals_ifThen (h : PartsSeal o s .ifThen field c) : (ifThen c).Seals o s :=
  (seals_conditional h (by decide) (by decide)).bind fun _ hd =>
    ensuresIn_pure (hd.append (sealed_lit (by decide)))

theorem seals_unlessThen (h : PartsSeal o s .unlessThen field c) : (unlessThen c).Seals o s :=
  (h.write (f := .predicate) .expression rfl rfl rfl False.elim).built.bind fun _ ht =>
    (h.clause rfl).bind fun _ hd =>
      (h.write (f := .alternate) .elseBranch rfl rfl rfl False.elim).bind fun _ he =>
        ensuresIn_pure ((((sealed_afterKeyword (by decide) (by decide) ht).append hd).append
          he).append (sealed_lit (by decide)))

theorem seals_postfixConditional {keyword : String} (hkeyword : Text.isKeyword keyword = true)
    (hbar : '|' ∉ keyword.toList) (hstatements : ((c .statements).write (.body false)).Seals o s)
    (hpredicate : ((c .predicate).text .expression).SealsText o s) :
    (postfixConditional keyword c).Seals o s := by
  refine hstatements.bind fun body hd => hpredicate.bind fun _ ht => ensuresIn_pure ?_
  rw [List.append_assoc]
  exact (hd.append (sealed_lit (by decide))).append (sealed_afterKeyword hkeyword hbar ht)

theorem seals_whenClause (h : PartsSeal o s kind field c) :
    (whenClause (.node kind field) c).Seals o s := by
  refine ((ensures_require _ .conditions).inSetting s).bind fun _ hconditions => ?_
  have hhas : kind.has .conditions = true := hconditions
  obtain rfl | rfl : kind = .whenClause ∨ kind = .caseOf := by
    clear h hconditions
    revert hhas
    cases kind <;> decide
  · exact (ensuresIn_sequence (h.writeEach (f := .conditions) .argument rfl rfl
      (fun _ => rfl) fun _ => And.right)).bind fun _ hitems =>
        (sealsText_arguments hitems).bind fun _ ht => EnsuresIn.after fun _ =>
          (h.clause rfl).bind fun _ hd =>
            ensuresIn_pure ((sealed_afterKeyword (by decide) (by decide) ht).append hd)
  · refine EnsuresIn.after fun _ => EnsuresIn.after fun _ => ?_
    exact ((ensures_require _ .statements).inSetting s).bind fun _ hnone => by cases hnone

theorem seals_caseOf (h : PartsSeal o s .caseOf field c) : (caseOf c).Seals o s := by
  have hsubject : ((c .predicate).ifPresent
      (Draft.afterKeyword <$> (c .predicate).text .expression)).EnsuresIn s
        fun subject => (Draft.lit "case" ++ subject).Sealed o := by
    refine ensuresIn_ifPresent ((sealed_lit (by decide)).append sealed_nil) fun _ => ?_
    exact (h.write (f := .predicate) .expression rfl rfl rfl False.elim).built.map
      fun _ ht => sealed_afterKeyword (by decide) (by decide) ht
  have hbranches := h.writeEach (f := .conditions) .whenClause rfl rfl (fun _ => rfl)
    fun _ hhidden => by cases hhidden.1
  refine hsubject.bind fun subject hd => (ensuresIn_sequence hbranches).bind fun items hitems =>
    (ensuresIn_mapM hitems).bind fun _ hbranches =>
      (h.write (f := .alternate) .elseBranch rfl rfl rfl False.elim).bind fun _ he =>
        ensuresIn_pure ?_
  exact (((hd.append sealed_separator).append (Draft.sealed_flatten hbranches)).append
    he).append (sealed_lit (by decide))

theorem seals_loop {keyword : String} (hkeyword : Text.isKeyword keyword = true)
    (hbar : '|' ∉ keyword.toList)
    (hpredicate : ((c .predicate).write .expression).Seals o { s with braceBlocks := true })
    (hclause : (Sequence.clause (c .statements)).Seals o s) : (loop keyword c).Seals o s :=
  (EnsuresIn.withBraces hpredicate.built).bind fun _ ht => hclause.bind fun _ hd =>
    ensuresIn_pure (((sealed_afterKeyword hkeyword hbar ht).append hd).append
      (sealed_lit (by decide)))

theorem seals_loopVariable (h : PartsSeal o s kind field c) :
    (loopVariable (.node kind field) c).Seals o s := by
  cases kind
  case localRead | localWrite =>
    exact EnsuresIn.after fun _ => ensuresIn_pure (h.word rfl)
  case instanceRead | globalRead => exact ensuresIn_pure (h.word rfl)
  all_goals exact ensuresIn_throw _

theorem seals_forLoop (h : PartsSeal o s .forLoop field c) : (forLoop c).Seals o s := by
  have hcollection := h.write (f := .collection) .expression rfl rfl rfl False.elim
  exact (h.write (f := .index) .loopVariable rfl rfl rfl False.elim).bind fun _ hd =>
    (EnsuresIn.withBraces hcollection.built).bind fun _ ht =>
      (h.clause rfl).bind fun _ he => ensuresIn_pure
        ((((((sealed_lit (by decide)).append hd).append (sealed_lit (by decide))).append
          (sealed_of ht)).append he).append (sealed_lit (by decide)))

theorem seals_rescueClause (h : PartsSeal o s kind field c) :
    (rescueClause (.node kind field) c).Seals o s := by
  refine ((ensures_require _ .exceptions).inSetting s).bind fun _ hhas => ?_
  cases Kind.eq_of_has_exceptions hhas
  have hreference : (Draft.word (c .reference).value).Sealed o := by
    have hproper {text : String} (htext : (c .reference).value.text? = some text) :
        Literal.isIdentifier text.toList = true :=
      h.settle.isProperText (f := .reference) rfl rfl htext
    exact Draft.sealed_word (fun _ htext => Value.closedName_of_isIdentifier (hproper htext))
      fun _ htext => Lexer.bar_not_mem_of_isIdentifier (hproper htext)
  have hrest (exceptions : Draft) (hd : exceptions.Sealed o) : (do
      let reference ← (c .reference).ifPresent do
        Writer.declare (c .reference).value
        return Draft.lit "=>" ++ Draft.word (c .reference).value
      let body ← Sequence.clause (c .statements)
      return Draft.lit "rescue" ++ exceptions ++ reference ++ body : Writer Draft).Seals o s :=
    (ensuresIn_ifPresent sealed_nil fun _ => EnsuresIn.after fun _ =>
      ensuresIn_pure ((sealed_lit (by decide)).append hreference)).bind fun _ he =>
        (h.clause rfl).bind fun _ hbody =>
          ensuresIn_pure ((((sealed_lit (by decide)).append hd).append he).append hbody)
  refine ensuresIn_ite (fun _ => ?_) fun _ => hrest [] sealed_nil
  exact (ensuresIn_sequence (h.writeEach (f := .exceptions) .argument rfl rfl
    (fun _ => rfl) fun _ => id)).bind fun _ hitems => (sealsText_arguments hitems).bind
      fun _ ht => hrest _ ((sealed_lit (by decide)).append (sealed_of ht))

theorem seals_ensureClause (h : PartsSeal o s kind field c) :
    (ensureClause (.node kind field) c).Seals o s :=
  ((ensures_require _ .statements).inSetting s).bind fun _ hhas =>
    (h.clause (Kind.owns_of_has (by decide) hhas)).bind fun _ hd =>
      ensuresIn_pure ((sealed_lit (by decide)).append hd)

theorem seals_beginBlock (h : PartsSeal o s .beginBlock field c) : (beginBlock c).Seals o s := by
  have hrescues := h.writeEach (f := .rescueClauses) .rescueClause rfl rfl
    (fun _ => rfl) fun _ => False.elim
  have helse := h.write (f := .elseClause) .elseBranch rfl rfl rfl False.elim
  have hensure := h.write (f := .ensureClause) .ensureClause rfl rfl rfl False.elim
  exact (h.clause rfl).bind fun _ h₁ => (ensuresIn_sequence hrescues).bind fun _ hitems =>
    (ensuresIn_mapM hitems).bind fun _ h₂ => helse.bind fun _ h₃ =>
      (ensuresIn_ifPresent sealed_nil fun _ => hensure).bind fun _ h₄ =>
        ensuresIn_pure ((((((sealed_lit (by decide)).append h₁).append
          (Draft.sealed_flatten h₂)).append h₃).append h₄).append (sealed_lit (by decide)))

theorem seals_jump {keyword : String} (hkeyword : Text.isKeyword keyword = true)
    (hbar : '|' ∉ keyword.toList)
    (h : ∀ e ∈ (c .arguments).elements,
      (e.write .argument).Seals o { s with braceBlocks := true }) :
    (jump keyword c).Seals o s := by
  have harguments : SealsText o { s with braceBlocks := true }
      ((c .arguments).sequence >>= fun items => arguments items none) :=
    (ensuresIn_sequence h).bind fun _ hitems => sealsText_arguments hitems
  refine ensuresIn_ite (fun _ => (EnsuresIn.withBraces harguments).bind fun _ ht =>
    ensuresIn_pure (sealed_afterKeyword hkeyword hbar ht)) fun _ => ensuresIn_pure ?_
  have hword : (Text.lit keyword).Sealed o := by
    refine (Text.settled_keyword hkeyword).sealed ?_
    rwa [Text.lit, Text.spell_ofChars]
  exact sealed_of hword

/-! ## All roles -/

theorem seals_conjunction (h : PartsSeal o s .logicalAnd field c) {op : Operator} {asWord : Bool}
    (hop : Value.conjunctionOperator field = op)
    (hsymbol : Text.isSmooth (if asWord then " " ++ op.symbol ++ " " else op.symbol) = true) :
    (logical c op asWord).Seals o s := by
  subst hop
  exact seals_logical hsymbol (h.enclosed (f := .left) rfl _ id) (h.enclosed (f := .right) rfl _ id)

/-- A disjunction with a bar in its operator would show it. -/
theorem seals_disjunction (h : PartsSeal o s .logicalOr field c) :
    (logical c .wordOr true).Seals o s := by
  have hown : (!(field .keyword).isTrue) = false :=
    Bool.eq_false_iff.mpr fun hbar => h.quiet (.own hbar)
  have hop : Value.disjunctionOperator field = .wordOr := if_pos (by simpa using hown)
  have hleft := h.enclosed (f := .left) rfl _ id
  have hright := h.enclosed (f := .right) rfl _ id
  rw [hop] at hleft hright
  exact seals_logical (by decide) hleft hright

theorem seals_expression (h : PartsSeal o s kind field c) :
    (expression (.node kind field) c).Seals o s := by
  have part (f : Field) (hown : kind.owns f = true) : (c f).Settles o := h.settle.part rfl hown
  have typed (f : Field) (hown : kind.owns f = true) :
      (kind.position f).isTyped (c f).value = true :=
    h.settle.isTyped rfl hown
  have hassigned (hown : kind.owns .value = true) (hkind : kind ≠ .doubleSplat) :
      (c .value).assignedValue.Seals o (s.inField kind .value) :=
    h.assignedValue hown fun hhidden => by
      revert hhidden
      cases kind <;>
        first
        | exact absurd rfl hkind
        | exact absurd hown (by decide)
        | exact id
  cases kind
  case methodDef => exact seals_methodDef h
  case classDef => exact seals_classDef h
  case singletonClass => exact seals_singletonClass h
  case moduleDef => exact seals_moduleDef h
  case ifThen => exact seals_ifThen h
  case unlessThen => exact seals_unlessThen h
  case caseOf => exact seals_caseOf h
  case whileLoop | untilLoop =>
    exact seals_loop (by decide) (by decide)
      (h.write (f := .predicate) .expression rfl rfl rfl False.elim) (h.clause rfl)
  case forLoop => exact seals_forLoop h
  case beginBlock => exact seals_beginBlock h
  case call => exact seals_call h
  case logicalAnd =>
    refine ensuresIn_ite (fun hword => ?_) fun hword => ?_
    · rw [h.value] at hword
      exact seals_conjunction h (if_pos hword) (by decide)
    · rw [h.value] at hword
      exact seals_conjunction h (if_neg hword) (by decide)
  case logicalOr =>
    refine ensuresIn_ite (fun _ => seals_disjunction h) fun hsymbol => ?_
    rw [h.value] at hsymbol
    exact absurd (.own (by simpa [Value.writesBar] using hsymbol)) h.quiet
  case logicalNot => exact seals_negation h
  case returnJump | breakJump | nextJump =>
    exact seals_jump (by decide) (by decide)
      (h.writeEach (f := .arguments) .argument rfl rfl (fun _ => rfl) fun _ => id)
  case yieldCall => exact seals_yieldCall (part .arguments rfl)
  case superCall => exact seals_superCall h
  case integer => exact seals_integer (typed .value rfl)
  case float => exact seals_float _
  case symbol => exact seals_symbol h
  case string => exact seals_string (typed .content rfl)
  case interpolated => exact seals_interpolated (part .parts rfl)
  case array => exact seals_array (part .elements rfl)
  case hash => exact seals_hash (part .elements rfl)
  case range => exact seals_range h
  case parentheses =>
    exact (((part .body rfl).whole.write (.body false) rfl rfl).inSetting s).bind fun _ hd =>
      ensuresIn_pure hd.sealed_parenthesized
  case statements => exact seals_sequenceOf h
  case localRead | instanceRead | globalRead | constantRead => exact ensuresIn_pure (h.word rfl)
  case localWrite =>
    exact seals_localAssignment (h.word rfl) (hassigned rfl (by decide))
  case instanceWrite | globalWrite | constantWrite =>
    exact seals_assignment (h.word rfl) (hassigned rfl (by decide))
  case constantPath => exact seals_constantPath h
  case operatorWrite => exact seals_compoundAssignment h
  case trueLiteral | falseLiteral | nilLiteral | selfLiteral =>
    exact ensuresIn_pure (sealed_lit (by decide))
  all_goals exact ensuresIn_throw _

/-! ## Statements -/

/-- A statement that begins with a hash gets parentheses. -/
theorem seals_plainStatement {v : Value} (hexpression : (expression v c).Settles o)
    (hseal : ¬v.ShowsBar s → (expression v c).Seals o s)
    (hquiet : v.isHiddenAs .statement = true ∨ ¬v.ShowsBar s) :
    (plainStatement v c).Seals o s := by
  refine (ensuresIn_lift fun _ h => h).bind fun braces hbraces => ensuresIn_ite (fun _ => ?_)
    fun hbare => hseal (hquiet.resolve_left fun hhidden => hbare ?_)
  · exact (hexpression.built.inSetting s).bind fun _ ht =>
      ensuresIn_pure (settled_of ht).sealed_parenthesized
  · simpa [Value.isHiddenAs, hbraces, Except.toOption] using hhidden

theorem seals_conditionalStatement {keyword : String} (hkeyword : Text.isKeyword keyword = true)
    (hbar : '|' ∉ keyword.toList) {v : Value}
    (hstatements : ((c .statements).write (.body false)).Seals o s)
    (hpredicate : ((c .predicate).text .expression).SealsText o s)
    (hplain : (plainStatement v c).Seals o s) : (conditionalStatement keyword v c).Seals o s :=
  EnsuresIn.after fun _ => EnsuresIn.after fun _ => ensuresIn_ite
    (fun _ => seals_postfixConditional hkeyword hbar hstatements hpredicate) fun _ => hplain

/-- A call of output has no receiver, so no hash at its beginning. -/
theorem seals_callStatement
    (hparts : ¬(Value.node .call field).ShowsBar s → PartsSeal o s .call field c)
    (hvalues : ∀ f, (c f).value = field f)
    (hquiet : (Value.node .call field).isHiddenAs .statement = true ∨
      ¬(Value.node .call field).ShowsBar s)
    (hplain : (plainStatement (.node .call field) c).Seals o s) :
    (callStatement (.node .call field) c).Seals o s := by
  refine Writer.ensuresIn_read.bind ?_
  rintro _ rfl
  refine EnsuresIn.after fun l => (ensuresIn_lift fun _ h => h).bind fun output houtput => ?_
  split
  · rename_i hlist
    rw [funext hvalues] at houtput
    refine seals_outputCall (hparts (hquiet.resolve_left ?_)) houtput hlist
    rw [Value.isHiddenAs, Value.startsWithBrace, if_pos (of_isOutputCall houtput).1]
    exact Bool.false_ne_true
  · exact hplain

theorem seals_statement (hsettle : PartsSettle o (.node kind field) c)
    (hparts : ¬(Value.node kind field).ShowsBar s → PartsSeal o s kind field c)
    (hquiet : (Value.node kind field).isHiddenAs .statement = true ∨
      ¬(Value.node kind field).ShowsBar s) :
    (statement (.node kind field) c).Seals o s := by
  have hplain : (plainStatement (.node kind field) c).Seals o s :=
    seals_plainStatement (settles_expression hsettle) (fun hq => seals_expression (hparts hq))
      hquiet
  cases kind
  case ifThen | unlessThen =>
    have h := hparts (hquiet.resolve_left Bool.false_ne_true)
    exact seals_conditionalStatement (by decide) (by decide)
      (h.write (f := .statements) (.body false) rfl rfl rfl id)
      (h.write (f := .predicate) .expression rfl rfl rfl False.elim).built hplain
  case call => exact seals_callStatement hparts hsettle.values hquiet hplain
  all_goals exact hplain

theorem seals_body {v : Value} (hspelled : v.isSpelled = true)
    (hsequence : v.isKind .statements = true → (sequenceOf false (c .body)).Seals o s)
    (hquiet : v.isHiddenAs .statement = true ∨ ¬v.ShowsBar s)
    (hstatement : (statement v c).Seals o s) : (body false v c).Seals o s := by
  refine ensuresIn_ite (fun _ => ensuresIn_pure sealed_nil) fun _ => ensuresIn_ite hsequence
    fun _ => seals_sequence fun x hx hkept => ?_
  rw [List.mem_singleton.mp hx] at hkept ⊢
  exact seals_writeOne hspelled hkept hquiet hstatement

/-- **A node is sealed if its parts are**, in every role in which it shows no bar. -/
theorem seals_write_of_parts (hsettle : PartsSettle o (.node kind field) c)
    (hparts : ¬(Value.node kind field).ShowsBar s → PartsSeal o s kind field c) {role : Role}
    (hrole : role.isBarless = true) (hfits : (Value.node kind field).fits role = true)
    (hquiet : (Value.node kind field).isHiddenAs role = true ∨
      ¬(Value.node kind field).ShowsBar s) :
    (write (.node kind field) c role).Seals o s := by
  have hmap {w : Writer Text} (hw : w.SealsText o s) : (Draft.of <$> w).Seals o s :=
    EnsuresIn.map hw fun _ ht => sealed_of ht
  have hall (hopen : (Value.node kind field).isHiddenAs role = false) :
      PartsSeal o s kind field c :=
    hparts (hquiet.resolve_left (Bool.eq_false_iff.mp hopen))
  cases role with
  | expression => exact seals_expression (hall rfl)
  | statement => exact seals_statement hsettle hparts hquiet
  | body file =>
    cases file with
    | true => cases hrole
    | false =>
      refine seals_body hsettle.spelled (fun hkind => ?_) hquiet
        (seals_statement hsettle hparts hquiet)
      cases eq_of_beq hkind
      exact seals_sequenceOf (hall rfl)
  | argument =>
    exact hmap (sealsText_argument (settles_expression hsettle) hparts
      (fun hq => seals_expression (hparts hq)) hquiet)
  | hashElement => exact hmap (sealsText_hashElement (hall rfl))
  | whenClause => exact seals_whenClause (hall rfl)
  | rescueClause => exact seals_rescueClause (hall rfl)
  | elseBranch => exact seals_elseBranch (hall rfl)
  | alternate => exact seals_alternate (hall rfl)
  | ensureClause => exact seals_ensureClause (hall rfl)
  | parameters => exact hmap (sealsText_parameters (hall rfl))
  | parameter sign => exact hmap (sealsText_parameter (hall rfl) hrole)
  | optionalParameter => exact hmap (sealsText_optionalParameter (hall rfl))
  | keywordParameter => exact hmap (sealsText_keywordParameter (hall rfl))
  | slot =>
    cases eq_of_beq hfits
    exact (hall rfl).write (f := .statements) (.body false) rfl rfl rfl id
  | loopVariable => exact seals_loopVariable (hall rfl)
  | block =>
    cases eq_of_beq hfits
    exact seals_block (hall rfl)

end Rules

/-! ## Trees -/

namespace Value

/-- What is no node is written as nothing, if at all. -/
theorem seals_leafRendition {v : Value} (h : v.isNode = false) : v.leafRendition.Seals o s := by
  intro role hrole hfits hquiet
  have hbranch : (Rules.elseBranch v fun _ => .absent).Seals o s := by
    refine ensuresIn_ite (fun _ => ensuresIn_pure sealed_nil) fun _ => ensuresIn_ite
      (fun hkind => ?_) fun _ => ensuresIn_throw _
    obtain ⟨field, rfl⟩ := exists_of_kind? (eq_of_beq hkind)
    cases h
  cases v with
  | node kind field => cases h
  | _ =>
    cases role with
    | slot | block => cases hfits
    | elseBranch | alternate => exact hbranch
    | body file =>
      cases file with
      | true => cases hrole
      | false =>
        exact Rules.seals_body (isSpelled_of_not_isNode h) (fun hkind => by cases hkind) hquiet
          (ensuresIn_throw _)
    | _ => exact ensuresIn_throw _

/-- What is no node is sealed if those of its elements are that are nodes. -/
theorem seals_of_elements {v : Value} (hleaf : v.isNode = false)
    (h : ∀ e ∈ v.elements, e.isNode = true → e.rendition.toRendition.Seals o s) :
    v.rendition.Seals o s := by
  refine ⟨?_, fun e he => ?_⟩
  · rw [toRendition_of_not_isNode hleaf]
    exact seals_leafRendition hleaf
  · rw [rendition_elements_eq] at he
    obtain ⟨item, hitem, rfl⟩ := List.mem_map.mp he
    cases hnode : item.isNode
    · rw [toRendition_of_not_isNode hnode]
      exact seals_leafRendition hnode
    · exact h item hitem hnode

/-- **A tree with proper names that shows no bar has a text without one** outside of the brackets
and strings in it. -/
theorem seals_rendition {v : Value} (h : v.isSpelledTree = true) (s : Setting) :
    v.rendition.Seals o s := by
  induction v using Value.induction generalizing s with
  | seq items ih =>
    exact seals_of_elements rfl fun e he hnode => (ih e he (all_preorder_item h he hnode) s).whole
  | node kind field ih =>
    have hparts : PartsSettle o (.node kind field) fun f => (field f).rendition :=
      ⟨fun f hown => settles_rendition (isSpelledTree_field h hown),
        fun f => rendition_value (field f), isSpelled_of_isSpelledTree h⟩
    refine ⟨fun role hrole hfits hquiet => ?_, List.forall_mem_nil _⟩
    refine Rules.seals_write_of_parts hparts (fun hq => ?_) hrole hfits hquiet
    exact ⟨hparts, fun f => rendition_elements (field f),
      fun f hown => ih f (isSpelledTree_field h hown) _, hq⟩
  -- what is neither a sequence nor a node has no nodes in it
  | _ =>
    refine seals_of_elements rfl fun e he hnode => ?_
    obtain ⟨items, hitems, _⟩ := exists_items_of_mem_elements he hnode
    cases hitems

end Value
end TerseRuby
