import TerseRuby.Proofs.Spacing.Parts

/-!
# Every rule, but for blanks

The lemmas `…_agrees` go on with bodies, calls, definitions and control structures.  The main
statement is `Rules.write_agrees`: a filled node whose parts are written in the same way but for
blanks is so too, in every role it can play.
-/

set_option autoImplicit false

namespace TerseRuby

open Writer (Agree agree_pure agree_throw agree_ask agree_liftM agree_read agree_get agree_declare
  agree_mapM)
open Draft (agrees_of agrees_nil agrees_lit agrees_string agrees_separator agrees_word agrees_name
  agrees_flatten)
open FieldRendition (agree_ifPresent agree_sequence)

variable {b : Bool} {c c' : Field → FieldRendition}

/-! ## Bodies -/

namespace Sequence

/-- A statement is written in the same way, but for blanks. -/
structure Statement.Agrees (b : Bool) (x y : Statement) : Prop where
  /-- It is the same statement. -/
  value : y.value = x.value
  /-- How it is written. -/
  write : Agree (Draft.Agrees b false) x.write y.write
  /-- Its fields hold what they have to. -/
  filled : x.value.isFilled = true

theorem writeOne_agrees (endsFile : Bool) {x y : Statement} (h : x.Agrees b y) :
    Agree (Draft.Agrees b false) (writeOne endsFile x) (writeOne endsFile y) := by
  rw [writeOne, writeOne, h.value]
  split
  · rename_i field hcomment
    have hfilled := h.filled
    rw [hcomment] at hfilled
    have hword : (field .text).isWord = true := Value.isMet_of_isFilled hfilled
      (by decide : Field.text ∈ Kind.comment.ownFields.map Prod.fst)
    have hline : Draft.Agrees b false (if endsFile then [] else Draft.lit "\n")
        (if endsFile then [] else Draft.lit "\n") := by
      split
      · exact agrees_nil
      · exact agrees_string _
    exact agree_pure (((agrees_string _).append (agrees_word hword)).append hline)
  · exact agree_pure (agrees_string _)
  · exact h.write

theorem writeFrom_agrees (file : Bool) {xs ys : List Statement}
    (h : List.Forall₂ (Statement.Agrees b) xs ys) (state : SeparatorState) :
    Agree (Draft.Agrees b false) (writeFrom file state xs) (writeFrom file state ys) := by
  induction h generalizing state with
  | nil => exact agree_pure agrees_nil
  | @cons x y xs ys hxy hrest ih =>
    have hempty : ys.isEmpty = xs.isEmpty := by
      cases hrest <;> rfl
    have hseparator : Draft.Agrees b false
        (if state.needsSeparator then Draft.separator else [])
        (if state.needsSeparator then Draft.separator else []) := by
      split
      · exact agrees_separator.loosen
      · exact agrees_nil
    rw [writeFrom, writeFrom, hempty, hxy.value]
    exact (writeOne_agrees _ hxy).bind fun _ _ hhead => (ih _).bind fun _ _ htail =>
      agree_pure ((hseparator.append hhead).append htail)

theorem write_agrees (file : Bool) {xs ys : List Statement}
    (h : List.Forall₂ (Statement.Agrees b) xs ys) :
    Agree (Draft.Agrees b false) (write file xs) (write file ys) := by
  refine agree_read fun s => writeFrom_agrees file ?_ _
  obtain ⟨zs, rfl, rfl⟩ := exists_pairs h
  have hvalue : Statement.value ∘ RelatedPair.after (R := Statement.Agrees b) =
      Statement.value ∘ RelatedPair.before := funext fun z => z.related.value
  rw [kept_map, kept_map, hvalue]
  exact forall₂_pairs _

theorem clause_agrees {r r' : FieldRendition} (h : r.Agrees b r') :
    Agree (Draft.Agrees b true) (clause r) (clause r') := by
  refine (h.whole.write (.body false) rfl).bind fun _ _ hbody => agree_read fun s => ?_
  rw [h.whole.value]
  refine agree_ask (settled_finalState s _) fun final _ => agree_pure ?_
  split
  · exact (agrees_separator.append hbody).append agrees_separator
  · exact (agrees_separator.append hbody).append agrees_nil

end Sequence

open Sequence (clause_agrees)

namespace Rules

theorem sequenceOf_agrees (file : Bool) {r r' : FieldRendition} (h : r.Agrees b r') :
    Agree (Draft.Agrees b false) (sequenceOf file r) (sequenceOf file r') := by
  refine agree_sequence h.whole.value fun _ => Sequence.write_agrees file ?_
  rw [List.forall₂_map_left_iff, List.forall₂_map_right_iff]
  exact h.elements.imp fun _ _ hxy => ⟨hxy.value, hxy.write .statement rfl, hxy.filled⟩

/-! ## Blocks and calls -/

theorem block_agrees (hparameters : (c .parameters).Agrees b (c' .parameters))
    (hbody : (c .body).Agrees b (c' .body)) :
    Agree (Draft.Agrees b true) (block c) (block c') := by
  have hclause := (clause_agrees hbody).withBraces false
  refine Agree.withLocals _ ((agree_ifPresent hparameters.whole.value Text.agrees_nil
    (hparameters.whole.text .parameters rfl)).bind fun names names' hnames => ?_)
  rw [hnames.isEmpty]
  cases hempty : names.isEmpty
  · -- with parameters there are bars, and the blank before them may be left out
    have hbuild (names : Text) :
        (Draft.lit "|" ++ Draft.of names ++ Draft.lit "|").build =
          .ok (Text.lit "|" ++ names ++ Text.lit "|") :=
      Draft.build_append (Draft.build_append (Draft.build_lit _) (Draft.build_of _))
        (Draft.build_lit _)
    have hbars := ((Text.agrees_lit (by decide : "|" ≠ "")).append hnames).append
      (Text.agrees_lit (by decide : "|" ≠ ""))
    refine agree_read fun s => ?_
    split
    · refine (hbody.whole.write (.body false) rfl).bind fun _ _ hd => agree_pure ?_
      exact (((agrees_lit (by decide)).append ⟨_, _, hbuild _, hbuild _, hbars⟩).append hd).append
        (agrees_lit (by decide))
    · refine hclause.bind fun _ _ hd => agree_pure ?_
      simp only [Bool.false_eq_true, if_false]
      rw [List.append_assoc (Draft.lit " do"), List.append_assoc (Draft.lit " do")]
      exact ((Draft.Agrees.append_blank (agrees_lit (by decide)) (hbuild _) (hbuild _) hbars
        rfl).append hd).append (agrees_lit (by decide))
  · refine agree_read fun s => ?_
    split
    · exact (hbody.whole.write (.body false) rfl).bind fun _ _ hd => agree_pure
        ((((agrees_lit (by decide)).append agrees_nil).append hd).append (agrees_lit (by decide)))
    · exact hclause.bind fun _ _ hd => agree_pure
        (((((agrees_lit (by decide)).append agrees_nil).append agrees_nil).append hd).append
          (agrees_lit (by decide)))

theorem attachedBlock_agrees {r r' : FieldRendition} (h : r.Agrees b r') :
    Agree (Draft.Agrees b false) (attachedBlock r) (attachedBlock r') := by
  rw [attachedBlock, attachedBlock, h.whole.value]
  split
  · exact h.whole.write .block ‹_›
  · exact agree_pure agrees_nil

theorem unaryCall_agrees (h : (c .receiver).Expresses b (c' .receiver)) (op : Operator) :
    Agree (Draft.Agrees b true) (unaryCall c op) (unaryCall c' op) := by
  refine (h.whole.operand op .right).bind fun operand _ ht => ?_
  rw [h.whole.value]
  split
  · rw [ht.isEmpty, ht.startsWith, List.isEmpty_eq_false_iff.mpr (ht.filled rfl)]
    have hgap : Draft.Agrees b false
        (if operand.startsWith (fun ch => ch == '~' || ch == '=') then Draft.lit " " else [])
        (if operand.startsWith (fun ch => ch == '~' || ch == '=') then Draft.lit " " else []) := by
      split
      · exact agrees_string _
      · exact agrees_nil
    exact agree_pure (((agrees_lit (by decide)).append hgap).append (agrees_of ht))
  · exact agree_pure ((agrees_lit (by decide)).append (agrees_of ht))
  · rw [ht.startsWith]
    exact agree_pure ((agrees_string _).append (agrees_of (ht.grouped _)))

theorem binaryCall_agrees (h : (c .receiver).Expresses b (c' .receiver)) (op : Operator)
    {argument argument' : Rendition} (hargument : argument.Expresses b argument') :
    Agree (Draft.Agrees b true) (binaryCall c op argument) (binaryCall c' op argument') := by
  refine (h.whole.operand op .left).bind fun _ _ hl => (hargument.operand op .right).bind
    fun _ _ hr => ?_
  rw [h.whole.value]
  exact agree_pure (agrees_of (hl.joinInfix hr _ _))

theorem dot_agrees : (dot c).Agrees b true (dot c) := by
  rw [dot]
  split
  · exact agrees_lit (by decide)
  · exact agrees_lit (by decide)

theorem brackets_agrees {t t' : Text} {firm : Bool} (h : t.Agrees b firm t') :
    (brackets t).Agrees b true (brackets t') :=
  ((agrees_lit (by decide)).append (agrees_of h)).append (agrees_lit (by decide))

theorem indexAssignment_agrees (h : (c .receiver).Expresses b (c' .receiver))
    {keys keys' : List Rendition} (hkeys : List.Forall₂ (Rendition.Agrees b) keys keys')
    {value value' : Rendition} (hvalue : value.Expresses b value') :
    Agree (Draft.Agrees b true) (indexAssignment c keys value)
      (indexAssignment c' keys' value') :=
  h.whole.memberOperand.bind fun _ _ hr => (arguments_agrees hkeys .nil).bind fun _ _ hk =>
    hvalue.assignedValue.bind fun _ _ hv => agree_pure
      (((agrees_of hr).append (brackets_agrees hk)).append hv)

theorem attributeAssignment_agrees (h : (c .receiver).Expresses b (c' .receiver))
    (hvalues : ∀ f, (c' f).value = (c f).value) {value value' : Rendition}
    (hvalue : value.Expresses b value') :
    Agree (Draft.Agrees b true) (attributeAssignment c value) (attributeAssignment c' value') := by
  rw [attributeAssignment, attributeAssignment, hvalues .name, dot_eq (hvalues _)]
  exact h.whole.memberOperand.bind fun _ _ hr => hvalue.assignedValue.bind fun _ _ hv => agree_pure
    ((((agrees_of hr).append dot_agrees).append (agrees_of (Text.agrees_chars _))).append hv)

/-- The arguments and the block argument of a call. -/
theorem argumentsAndBlock_agrees (harguments : (c .arguments).Agrees b (c' .arguments))
    (hblock : (c .block).Agrees b (c' .block)) {β β' : Type} {Q : β → β' → Prop}
    {k : Text → Writer β} {k' : Text → Writer β'}
    (hk : ∀ t t', Text.Agrees b false t t' → Agree Q (k t) (k' t')) :
    Agree Q
      (do
        let items ← (c .arguments).sequence
        let list ← arguments items (blockArgument? (c .block))
        k list)
      (do
        let items ← (c' .arguments).sequence
        let list ← arguments items (blockArgument? (c' .block))
        k' list) :=
  agree_sequence harguments.whole.value fun _ =>
    (arguments_agrees harguments.elements (blockArgument?_agrees hblock)).bind hk

theorem indexAccess_agrees (h : (c .receiver).Expresses b (c' .receiver))
    (harguments : (c .arguments).Expresses b (c' .arguments))
    (hblock : (c .block).Agrees b (c' .block)) :
    Agree (Draft.Agrees b true) (indexAccess c) (indexAccess c') :=
  h.whole.memberOperand.bind fun _ _ hr => argumentsAndBlock_agrees harguments.toAgrees hblock
    fun _ _ hk => agree_pure ((agrees_of hr).append (brackets_agrees hk))

theorem argumentList_agrees (hvalues : ∀ f, (c' f).value = (c f).value)
    (harguments : (c .arguments).Expresses b (c' .arguments))
    (hblock : (c .block).Agrees b (c' .block)) :
    Agree (Draft.Agrees b false) (argumentList c) (argumentList c') := by
  have hsome : (blockArgument? (c' .block)).isSome = (blockArgument? (c .block)).isSome := by
    rw [blockArgument?, blockArgument?, hvalues .block]
    split <;> rfl
  rw [argumentList, argumentList, hvalues .arguments, hvalues .receiver, hvalues .name, hsome]
  split
  · exact argumentsAndBlock_agrees harguments.toAgrees hblock fun _ _ ht =>
      agree_pure (agrees_of ht).parenthesized.loosen
  split
  · exact agree_pure agrees_nil
  refine agree_read fun s => agree_get fun locals => ?_
  refine agree_ask (settled_readsAsVariable s locals _) fun isVariable _ => ?_
  split
  · exact agree_pure (agrees_string _)
  · exact agree_pure agrees_nil

theorem plainCall_agrees (hvalues : ∀ f, (c' f).value = (c f).value)
    (hname : (c .name).value.isName = true) (h : (c .receiver).Expresses b (c' .receiver))
    (harguments : (c .arguments).Expresses b (c' .arguments))
    (hblock : (c .block).Agrees b (c' .block)) :
    Agree (Draft.Agrees b true) (plainCall c) (plainCall c') := by
  have hreceiver : Agree (Draft.Agrees b false)
      ((c .receiver).ifPresent do return Draft.of (← (c .receiver).memberOperand) ++ dot c)
      ((c' .receiver).ifPresent do
        return Draft.of (← (c' .receiver).memberOperand) ++ dot c) :=
    agree_ifPresent (hvalues _) agrees_nil (h.whole.memberOperand.bind fun _ _ ht =>
      agree_pure ((agrees_of ht).append dot_agrees).loosen)
  rw [plainCall, plainCall, hvalues .name, dot_eq (hvalues _)]
  exact hreceiver.bind fun _ _ hr => (argumentList_agrees hvalues harguments hblock).bind
    fun _ _ hl => (attachedBlock_agrees hblock).bind fun _ _ hb => agree_pure
      (((hr.append (agrees_name hname)).append hl).append hb)

theorem call_agrees (hvalues : ∀ f, (c' f).value = (c f).value)
    (hname : (c .name).value.isName = true) (h : (c .receiver).Expresses b (c' .receiver))
    (harguments : (c .arguments).Expresses b (c' .arguments))
    (hblock : (c .block).Agrees b (c' .block)) :
    Agree (Draft.Agrees b true) (call c) (call c') := by
  have hplain := plainCall_agrees hvalues hname h harguments hblock
  have hindex := indexAccess_agrees h harguments hblock
  have hfields : (fun f => (c' f).value) = fun f => (c f).value := funext hvalues
  obtain ⟨zs, hitems, hitems'⟩ := exists_pairs harguments.elements
  simp only [call, hfields, hitems, hitems']
  refine agree_ask (CallShape.settled_of _) fun shape _ => ?_
  rcases zs with _ | ⟨z, zs⟩
  · rcases shape with op | op | _ | _ | _ | _
    · exact unaryCall_agrees h op
    · exact hplain
    · exact hplain
    · exact hplain
    · exact hindex
    · exact hplain
  · rw [List.getLast?_map, List.getLast?_map, ← List.map_dropLast, ← List.map_dropLast,
      List.getLast?_eq_some_getLast (List.cons_ne_nil _ _)]
    rcases shape with op | op | _ | _ | _ | _
    · exact unaryCall_agrees h op
    · exact binaryCall_agrees h op z.related
    · exact indexAssignment_agrees h ((forall₂_pairs _).imp fun _ _ hxy => hxy.toAgrees)
        (RelatedPair.related _)
    · exact attributeAssignment_agrees h hvalues z.related
    · exact hindex
    · exact hplain

theorem superCall_agrees (harguments : (c .arguments).Expresses b (c' .arguments))
    (hblock : (c .block).Agrees b (c' .block)) :
    Agree (Draft.Agrees b true) (superCall c) (superCall c') := by
  have hattached (d d' : Draft) (hd : d.Agrees b false d') : Agree (Draft.Agrees b true)
      (do return Draft.lit "super" ++ d ++ (← attachedBlock (c .block)))
      (do return Draft.lit "super" ++ d' ++ (← attachedBlock (c' .block))) :=
    (attachedBlock_agrees hblock).bind fun _ _ hb => agree_pure
      (((agrees_lit (by decide)).append hd).append hb)
  have hargument := blockArgument?_agrees hblock
  simp only [superCall, harguments.whole.value]
  rcases (c .arguments).value.isNull with _ | _
  · exact argumentsAndBlock_agrees harguments.toAgrees hblock fun _ _ ht =>
      hattached _ _ (agrees_of ht).parenthesized.loosen
  · rcases hbefore : blockArgument? (c .block) with _ | r <;>
      rcases hafter : blockArgument? (c' .block) with _ | r' <;>
      rw [hbefore, hafter] at hargument
    · exact hattached _ _ agrees_nil
    · cases hargument
    · cases hargument
    · obtain _ | ⟨hr, _⟩ := hargument
      exact (hr.text .argument rfl).bind fun _ _ ht =>
        hattached _ _ ((agrees_string _).append (agrees_of ht)).loosen

theorem yieldCall_agrees (h : (c .arguments).Expresses b (c' .arguments)) :
    Agree (Draft.Agrees b true) (yieldCall c) (yieldCall c') := by
  rw [yieldCall, yieldCall, h.whole.value]
  split
  · exact agree_sequence h.whole.value fun _ => (arguments_agrees h.toAgrees.elements .nil).bind
      fun _ _ ht => agree_pure ((agrees_lit (by decide)).append (agrees_of ht).parenthesized)
  · exact agree_pure (agrees_lit (by decide))

theorem outputCall_agrees (hvalue : (c' .name).value = (c .name).value)
    (hname : (c .name).value.isName = true) {argument argument' : Rendition}
    (h : argument.Expresses b argument') :
    Agree (Draft.Agrees b true) (outputCall c argument) (outputCall c' argument') := by
  rw [outputCall, outputCall, hvalue]
  exact h.expression.bind fun _ _ ht => agree_pure ((agrees_name hname).afterKeyword ht)

/-! ## Definitions -/

theorem methodReceiver_agrees {r r' : FieldRendition} (h : r.Expresses b r') :
    Agree (Draft.Agrees b false) (methodReceiver r) (methodReceiver r') := by
  rw [methodReceiver, methodReceiver, h.whole.value]
  exact h.whole.expression.bind fun _ _ ht => agree_pure
    ((agrees_of (ht.grouped _)).append (agrees_string _)).loosen

theorem methodDef_agrees (hvalue : (c' .name).value = (c .name).value)
    (hname : (c .name).value.isName = true)
    (hreceiver : (c .receiver).Expresses b (c' .receiver))
    (hparameters : (c .parameters).Agrees b (c' .parameters))
    (hbody : (c .body).Agrees b (c' .body)) :
    Agree (Draft.Agrees b true) (methodDef c) (methodDef c') := by
  rw [methodDef, methodDef, hvalue]
  refine (agree_ifPresent hreceiver.whole.value agrees_nil
    (methodReceiver_agrees hreceiver)).bind fun _ _ hr => ?_
  refine Agree.bind (P := Draft.Agrees b false) (Agree.withLocals _ ?_) fun _ _ hrest => agree_pure
    ((((agrees_lit (by decide)).append hr).append (agrees_name hname)).append hrest |>.append
      (agrees_lit (by decide)))
  refine (agree_ifPresent hparameters.whole.value Text.agrees_nil
    (hparameters.whole.text .parameters rfl)).bind fun names _ hnames => ?_
  refine (clause_agrees hbody).bind fun _ _ hclause => agree_pure ?_
  rw [hnames.isEmpty]
  cases names.isEmpty
  · exact ((agrees_of hnames).parenthesized.append hclause).loosen
  · exact ((agrees_of hnames).append hclause).loosen

theorem classDef_agrees (hpath : (c .constantPath).Expresses b (c' .constantPath))
    (hsuperclass : (c .superclass).Expresses b (c' .superclass))
    (hbody : (c .body).Agrees b (c' .body)) :
    Agree (Draft.Agrees b true) (classDef c) (classDef c') := by
  have hextends : Agree (Draft.Agrees b false)
      ((c .superclass).ifPresent do
        return Draft.lit "<" ++ Draft.of (← (c .superclass).memberOperand))
      ((c' .superclass).ifPresent do
        return Draft.lit "<" ++ Draft.of (← (c' .superclass).memberOperand)) :=
    agree_ifPresent hsuperclass.whole.value agrees_nil (hsuperclass.whole.memberOperand.bind
      fun _ _ ht => agree_pure ((agrees_string _).append (agrees_of ht)).loosen)
  exact hpath.whole.expression.bind fun _ _ hp => hextends.bind fun _ _ hs =>
    ((clause_agrees hbody).withLocals _).bind fun _ _ hb => agree_pure
      ((((agrees_lit (by decide)).append (agrees_of hp)).append hs).append hb |>.append
        (agrees_lit (by decide)))

theorem singletonClass_agrees (hobject : (c .expression).Expresses b (c' .expression))
    (hbody : (c .body).Agrees b (c' .body)) :
    Agree (Draft.Agrees b true) (singletonClass c) (singletonClass c') :=
  hobject.whole.memberOperand.bind fun _ _ ho => ((clause_agrees hbody).withLocals _).bind
    fun _ _ hb => agree_pure ((((agrees_lit (by decide)).append (agrees_of ho)).append hb).append
      (agrees_lit (by decide)))

theorem moduleDef_agrees (hpath : (c .constantPath).Expresses b (c' .constantPath))
    (hbody : (c .body).Agrees b (c' .body)) :
    Agree (Draft.Agrees b true) (moduleDef c) (moduleDef c') :=
  hpath.whole.expression.bind fun _ _ hp => ((clause_agrees hbody).withLocals _).bind
    fun _ _ hb => agree_pure ((((agrees_lit (by decide)).append (agrees_of hp)).append hb).append
      (agrees_lit (by decide)))

/-! ## Conditionals, loops, exceptions and jumps -/

theorem elseBranch_agrees (v : Value)
    (h : v.isKind .elseBranch = true → (c .statements).Agrees b (c' .statements)) :
    Agree (Draft.Agrees b false) (elseBranch v c) (elseBranch v c') := by
  rw [elseBranch, elseBranch]
  split
  · exact agree_pure agrees_nil
  split
  · exact (clause_agrees (h ‹_›)).bind fun _ _ hd => agree_pure
      ((agrees_string _).append hd).loosen
  · exact agree_throw fun _ => rfl

theorem conditional_agrees {keyword : String} (hkeyword : keyword ≠ "")
    (hpredicate : (c .predicate).Expresses b (c' .predicate))
    (hstatements : (c .statements).Agrees b (c' .statements))
    (halternate : (c .alternate).Agrees b (c' .alternate)) :
    Agree (Draft.Agrees b true) (conditional keyword c) (conditional keyword c') :=
  hpredicate.whole.expression.bind fun _ _ hp => (clause_agrees hstatements).bind fun _ _ hs =>
    (halternate.whole.write .alternate rfl).bind fun _ _ ha => agree_pure
      ((((agrees_lit hkeyword).afterKeyword hp).append hs).append ha)

theorem ifThen_agrees (hpredicate : (c .predicate).Expresses b (c' .predicate))
    (hstatements : (c .statements).Agrees b (c' .statements))
    (halternate : (c .alternate).Agrees b (c' .alternate)) :
    Agree (Draft.Agrees b true) (ifThen c) (ifThen c') :=
  (conditional_agrees (by decide) hpredicate hstatements halternate).bind fun _ _ hd => agree_pure
    (hd.append (agrees_lit (by decide)))

theorem unlessThen_agrees (hpredicate : (c .predicate).Expresses b (c' .predicate))
    (hstatements : (c .statements).Agrees b (c' .statements))
    (halternate : (c .alternate).Agrees b (c' .alternate)) :
    Agree (Draft.Agrees b true) (unlessThen c) (unlessThen c') :=
  hpredicate.whole.expression.bind fun _ _ hp => (clause_agrees hstatements).bind fun _ _ hs =>
    (halternate.whole.write .elseBranch rfl).bind fun _ _ ha => agree_pure
      (((((agrees_lit (by decide)).afterKeyword hp).append hs).append ha).append
        (agrees_lit (by decide)))

theorem postfixConditional_agrees {keyword : String} (hkeyword : keyword ≠ "")
    (hpredicate : (c .predicate).Expresses b (c' .predicate))
    (hstatements : (c .statements).Agrees b (c' .statements)) :
    Agree (Draft.Agrees b true) (postfixConditional keyword c) (postfixConditional keyword c') :=
  (hstatements.whole.write (.body false) rfl).bind fun _ _ hs =>
    hpredicate.whole.expression.bind fun _ _ hp => agree_pure
      (((hs.append (agrees_lit (by decide))).append (agrees_lit hkeyword)).afterKeyword hp)

theorem whenClause_agrees (v : Value)
    (hconditions : v.kind?.any (·.has .conditions) = true →
      (c .conditions).Agrees b (c' .conditions))
    (hstatements : v.kind?.any (·.has .statements) = true →
      (c .statements).Agrees b (c' .statements))
    (hmet : v.kind?.any (·.has .conditions) = true → v.kind?.any (·.has .statements) = true →
      (c .conditions).value.isExpression = true ∧ (c .conditions).value.hasElements = true) :
    Agree (Draft.Agrees b false) (whenClause v c) (whenClause v c') := by
  refine agree_require fun hhas => ?_
  have hlist := hconditions hhas
  refine agree_sequence hlist.whole.value fun hcollection => ?_
  cases hbody : v.kind?.any (·.has .statements)
  · -- conditions without statements are written before they are refused
    refine (arguments_agrees hlist.elements .nil).bind fun _ _ _ => agree_require fun hhas => ?_
    rw [hbody] at hhas
    cases hhas
  · obtain ⟨hexpression, helements⟩ := hmet hhas hbody
    have hexpresses := hlist.expresses hexpression
    refine (arguments_firmly (hlist.elements_ne_nil hcollection helements)
      hexpresses.elements).bind fun _ _ ht => agree_require fun hhas => ?_
    exact (clause_agrees (hstatements hhas)).bind fun _ _ hs => agree_pure
      (((agrees_lit (by decide)).afterKeyword ht).append hs).loosen

theorem caseOf_agrees (hpredicate : (c .predicate).Expresses b (c' .predicate))
    (hconditions : (c .conditions).Agrees b (c' .conditions))
    (halternate : (c .alternate).Agrees b (c' .alternate)) :
    Agree (Draft.Agrees b true) (caseOf c) (caseOf c') := by
  -- the subject begins with a blank, so it is judged together with the keyword before it
  let follows (d d' : Draft) : Prop := ∀ e e', Draft.Agrees b true e e' →
    Draft.Agrees b true (e ++ d) (e' ++ d')
  have hsubject : Agree follows
      ((c .predicate).ifPresent (Draft.afterKeyword <$> (c .predicate).text .expression))
      ((c' .predicate).ifPresent (Draft.afterKeyword <$> (c' .predicate).text .expression)) :=
    agree_ifPresent hpredicate.whole.value (fun _ _ he => he.append agrees_nil)
      (hpredicate.whole.expression.map fun _ _ ht _ _ he => he.afterKeyword ht)
  have hbranch (x y : Rendition) (hxy : x.Agrees b y) : Agree (Draft.Agrees b false)
      (x.write .whenClause) (y.write .whenClause) := hxy.write .whenClause rfl
  refine hsubject.bind fun _ _ hs => agree_sequence hconditions.whole.value fun _ => ?_
  refine (agree_mapM hbranch hconditions.elements).bind fun _ _ hbranches => ?_
  refine (halternate.whole.write .elseBranch rfl).bind fun _ _ ha => agree_pure ?_
  exact ((((hs _ _ (agrees_lit (by decide))).append agrees_separator).append
    (agrees_flatten hbranches.1)).append ha).append (agrees_lit (by decide))

theorem loop_agrees {keyword : String} (hkeyword : keyword ≠ "")
    (hpredicate : (c .predicate).Expresses b (c' .predicate))
    (hstatements : (c .statements).Agrees b (c' .statements)) :
    Agree (Draft.Agrees b true) (loop keyword c) (loop keyword c') :=
  (hpredicate.whole.expression.withBraces true).bind fun _ _ hp => (clause_agrees hstatements).bind
    fun _ _ hs => agree_pure
      ((((agrees_lit hkeyword).afterKeyword hp).append hs).append (agrees_lit (by decide)))

theorem loopVariable_agrees (v : Value) (hvalue : (c' .name).value = (c .name).value)
    (hname : v.kind?.any (fun kind => kind.has .name && !kind.isParameter) = true →
      (c .name).value.isName = true) :
    Agree (Draft.Agrees b false) (loopVariable v c) (loopVariable v c') := by
  rw [loopVariable, loopVariable, hvalue]
  split
  case h_1 | h_2 =>
    rename_i hkind
    rw [hkind] at hname
    exact agree_declare _ (agree_pure (agrees_name (hname rfl)).loosen)
  case h_3 | h_4 =>
    rename_i hkind
    rw [hkind] at hname
    exact agree_pure (agrees_name (hname rfl)).loosen
  case h_5 => exact agree_throw fun _ => rfl

theorem forLoop_agrees (hindex : (c .index).Agrees b (c' .index))
    (hcollection : (c .collection).Expresses b (c' .collection))
    (hstatements : (c .statements).Agrees b (c' .statements)) :
    Agree (Draft.Agrees b true) (forLoop c) (forLoop c') :=
  (hindex.whole.write .loopVariable rfl).bind fun _ _ hi =>
    (hcollection.whole.expression.withBraces true).bind fun _ _ hc =>
      (clause_agrees hstatements).bind fun _ _ hs => agree_pure
        ((((((agrees_lit (by decide)).append hi).append (agrees_lit (by decide))).append
          (agrees_of hc)).append hs).append (agrees_lit (by decide)))

theorem rescueClause_agrees (v : Value) (hvalue : (c' .reference).value = (c .reference).value)
    (h : v.kind?.any (·.has .exceptions) = true → (c .exceptions).Agrees b (c' .exceptions) ∧
      (c .reference).value.isWord = true ∧ (c .statements).Agrees b (c' .statements)) :
    Agree (Draft.Agrees b true) (rescueClause v c) (rescueClause v c') := by
  refine agree_require fun hhas => ?_
  obtain ⟨hexceptions, hword, hstatements⟩ := h hhas
  have hrest (d d' : Draft) (hd : d.Agrees b false d') : Agree (Draft.Agrees b true)
      (do
        let reference ← (c .reference).ifPresent do
          Writer.declare (c .reference).value
          return Draft.lit "=>" ++ Draft.word (c .reference).value
        return Draft.lit "rescue" ++ d ++ reference ++ (← Sequence.clause (c .statements)))
      (do
        let reference ← (c' .reference).ifPresent do
          Writer.declare (c' .reference).value
          return Draft.lit "=>" ++ Draft.word (c' .reference).value
        return Draft.lit "rescue" ++ d' ++ reference ++ (← Sequence.clause (c' .statements))) := by
    have hbound : Agree (Draft.Agrees b false)
        ((c .reference).ifPresent do
          Writer.declare (c .reference).value
          return Draft.lit "=>" ++ Draft.word (c .reference).value)
        ((c' .reference).ifPresent do
          Writer.declare (c' .reference).value
          return Draft.lit "=>" ++ Draft.word (c' .reference).value) := by
      refine agree_ifPresent hvalue agrees_nil ?_
      rw [hvalue]
      exact agree_declare _ (agree_pure ((agrees_string _).append (agrees_word hword)))
    exact hbound.bind fun _ _ hr => (clause_agrees hstatements).bind fun _ _ hs => agree_pure
      ((((agrees_lit (by decide)).append hd).append hr).append hs)
  dsimp only
  rw [hexceptions.whole.value]
  split
  · exact agree_sequence hexceptions.whole.value fun _ =>
      (arguments_agrees hexceptions.elements .nil).bind fun _ _ ht =>
        hrest _ _ ((agrees_string _).append (agrees_of ht)).loosen
  · exact hrest _ _ agrees_nil

theorem ensureClause_agrees (v : Value)
    (hstatements : v.kind?.any (·.has .statements) = true →
      (c .statements).Agrees b (c' .statements)) :
    Agree (Draft.Agrees b true) (ensureClause v c) (ensureClause v c') :=
  agree_require fun hhas => (clause_agrees (hstatements hhas)).bind fun _ _ hd => agree_pure
    ((agrees_lit (by decide)).append hd)

theorem beginBlock_agrees (hstatements : (c .statements).Agrees b (c' .statements))
    (hrescues : (c .rescueClauses).Agrees b (c' .rescueClauses))
    (helse : (c .elseClause).Agrees b (c' .elseClause))
    (hensure : (c .ensureClause).Agrees b (c' .ensureClause)) :
    Agree (Draft.Agrees b true) (beginBlock c) (beginBlock c') := by
  refine (clause_agrees hstatements).bind fun _ _ hs => ?_
  refine agree_sequence hrescues.whole.value fun _ => ?_
  have hrescue (x y : Rendition) (hxy : x.Agrees b y) : Agree (Draft.Agrees b false)
      (x.write .rescueClause) (y.write .rescueClause) := hxy.write .rescueClause rfl
  refine (agree_mapM hrescue hrescues.elements).bind fun _ _ hr => ?_
  refine (helse.whole.write .elseBranch rfl).bind fun _ _ he => ?_
  refine (agree_ifPresent hensure.whole.value agrees_nil
    (hensure.whole.write .ensureClause rfl)).bind fun _ _ hensured => agree_pure ?_
  exact (((((agrees_lit (by decide)).append hs).append (agrees_flatten hr.1)).append he).append
    hensured).append (agrees_lit (by decide))

theorem jump_agrees {keyword : String} (hkeyword : keyword ≠ "")
    (h : (c .arguments).Expresses b (c' .arguments)) :
    Agree (Draft.Agrees b true) (jump keyword c) (jump keyword c') := by
  rw [jump, jump, h.whole.value]
  split
  · rename_i htrue
    have hvalues : Agree (Text.Agrees b true) (do arguments (← (c .arguments).sequence) none)
        (do arguments (← (c' .arguments).sequence) none) :=
      agree_sequence h.whole.value fun hcollection => arguments_firmly
        (h.toAgrees.elements_ne_nil hcollection (Value.hasElements_of_isTrue htrue)) h.elements
    exact (hvalues.withBraces true).bind fun _ _ ht => agree_pure
      ((agrees_lit hkeyword).afterKeyword ht)
  · exact agree_pure (agrees_lit hkeyword)

/-! ## Every node in every role -/

section Roles

variable {v : Value}

/-- A filled node that is no sequence of statements has a text as an expression. -/
theorem expression_firmly (h : PartsAgree b v c c') (hfirm : v.isKind .statements = false) :
    Agree (Draft.Agrees b true) (expression v c) (expression v c') := by
  cases v with
  | node kind field =>
    have part (f : Field) (hown : kind.owns f = true) : (c f).Agrees b (c' f) :=
      h.part kind rfl f hown
    have expressed (f : Field) (hown : kind.owns f = true)
        (hdemand : kind.demand f = .expression) : (c f).Expresses b (c' f) :=
      h.expression rfl hown hdemand
    have met (f : Field) (hown : kind.owns f = true) :
        (kind.demand f).isMet (c f).value = true := h.isMet rfl f hown
    have hname : (c' .name).value = (c .name).value := h.value .name
    cases kind
    case methodDef =>
      exact methodDef_agrees hname (met .name rfl) (expressed .receiver rfl rfl)
        (part .parameters rfl) (part .body rfl)
    case classDef =>
      exact classDef_agrees (expressed .constantPath rfl rfl) (expressed .superclass rfl rfl)
        (part .body rfl)
    case singletonClass =>
      exact singletonClass_agrees (expressed .expression rfl rfl) (part .body rfl)
    case moduleDef =>
      exact moduleDef_agrees (expressed .constantPath rfl rfl) (part .body rfl)
    case ifThen =>
      exact ifThen_agrees (expressed .predicate rfl rfl) (part .statements rfl)
        (part .alternate rfl)
    case unlessThen =>
      exact unlessThen_agrees (expressed .predicate rfl rfl) (part .statements rfl)
        (part .alternate rfl)
    case caseOf =>
      exact caseOf_agrees (expressed .predicate rfl rfl) (part .conditions rfl)
        (part .alternate rfl)
    case whileLoop | untilLoop =>
      exact loop_agrees (by decide) (expressed .predicate rfl rfl)
        (part .statements rfl)
    case forLoop =>
      exact forLoop_agrees (part .index rfl) (expressed .collection rfl rfl)
        (part .statements rfl)
    case beginBlock =>
      exact beginBlock_agrees (part .statements rfl)
        (part .rescueClauses rfl) (part .elseClause rfl)
        (part .ensureClause rfl)
    case call =>
      exact call_agrees h.value (met .name rfl) (expressed .receiver rfl rfl)
        (expressed .arguments rfl rfl) (part .block rfl)
    case logicalAnd | logicalOr =>
      have hlogical := logical_agrees (expressed .left rfl rfl) (expressed .right rfl rfl)
      simp only [expression, Value.kind?, h.value]
      split <;> exact hlogical _ _
    case logicalNot => exact negation_agrees (expressed .expression rfl rfl)
    case returnJump | breakJump | nextJump =>
      exact jump_agrees (by decide) (expressed .arguments rfl rfl)
    case yieldCall => exact yieldCall_agrees (expressed .arguments rfl rfl)
    case superCall =>
      exact superCall_agrees (expressed .arguments rfl rfl) (part .block rfl)
    case integer =>
      simp only [expression, Value.kind?, h.value]
      exact agree_liftM ((Value.settled_shown _).bind fun _ => settled_ok _)
        fun _ => integer_agrees (met .value rfl)
    case float =>
      simp only [expression, Value.kind?, h.value]
      exact agree_liftM (settled_float _) fun _ => float_agrees
    case symbol =>
      simp only [expression, Value.kind?, h.value]
      exact agree_liftM (settled_symbol _) fun _ => symbol_agrees
    case string =>
      simp only [expression, Value.kind?, h.value]
      exact agree_liftM ((Content.settled_literal _).bind fun _ => settled_ok _)
        fun _ => string_agrees
    case interpolated => exact interpolated_agrees (part .parts rfl)
    case array => exact array_agrees (expressed .elements rfl rfl)
    case hash => exact hash_agrees (part .elements rfl)
    case range =>
      exact range_agrees (expressed .left rfl rfl) (expressed .right rfl rfl) (h.value _)
    case parentheses =>
      exact ((part .body rfl).whole.write (.body false) rfl).bind fun _ _ hd =>
        agree_pure hd.parenthesized
    case statements => cases hfirm
    case localRead | instanceRead | globalRead | constantRead =>
      simp only [expression, Value.kind?, h.value]
      exact agree_pure (agrees_name (met .name rfl))
    case localWrite =>
      exact localAssignment_agrees hname (met .name rfl) (expressed .value rfl rfl)
    case instanceWrite | globalWrite | constantWrite =>
      exact assignment_agrees hname (met .name rfl) (expressed .value rfl rfl)
    case constantPath =>
      exact constantPath_agrees (expressed .parent rfl rfl) hname (met .name rfl)
    case operatorWrite =>
      exact compoundAssignment_agrees (expressed .target rfl rfl) (h.value _)
        (met .operator rfl) (expressed .value rfl rfl)
    case trueLiteral | falseLiteral | nilLiteral | selfLiteral =>
      exact agree_pure (agrees_lit (by decide))
    all_goals exact agree_throw fun _ => rfl
  | _ => exact agree_throw fun _ => rfl

theorem expression_agrees (h : PartsAgree b v c c') :
    Agree (Draft.Agrees b (!v.isKind .statements)) (expression v c) (expression v c') := by
  cases hstatements : v.isKind .statements
  · exact expression_firmly h hstatements
  · obtain ⟨field, rfl⟩ := Value.exists_of_isKind hstatements
    exact sequenceOf_agrees false (h.part .statements rfl .body rfl)

theorem plainStatement_agrees (h : PartsAgree b v c c') :
    Agree (Draft.Agrees b false) (plainStatement v c) (plainStatement v c') := by
  have hexpression := expression_agrees h
  refine agree_ask (Value.settled_startsWithBrace v) fun brace _ => ?_
  split
  · exact hexpression.built.bind fun _ _ ht => agree_pure (agrees_of ht).parenthesized.loosen
  · exact hexpression.mono fun _ _ hd => hd.loosen

theorem conditionalStatement_agrees {keyword : String} (hkeyword : keyword ≠ "") {kind : Kind}
    (hkind : v.kind? = some kind) (hcases : kind = .ifThen ∨ kind = .unlessThen)
    (h : PartsAgree b v c c') :
    Agree (Draft.Agrees b false) (conditionalStatement keyword v c)
      (conditionalStatement keyword v c') := by
  have hfields : (fun f => (c' f).value) = fun f => (c f).value := funext h.value
  have hpredicate : (c .predicate).Expresses b (c' .predicate) := by
    rcases hcases with rfl | rfl <;> exact h.expression hkind rfl rfl
  have hstatements : (c .statements).Agrees b (c' .statements) := by
    rcases hcases with rfl | rfl <;> exact h.part _ hkind .statements rfl
  rw [conditionalStatement, conditionalStatement, hfields]
  refine agree_read fun s => agree_ask (settled_isPostfix s _) fun isShort _ => ?_
  split
  · exact (postfixConditional_agrees hkeyword hpredicate hstatements).mono
      fun _ _ hd => hd.loosen
  · exact plainStatement_agrees h

theorem callStatement_agrees (hkind : v.kind? = some .call) (h : PartsAgree b v c c') :
    Agree (Draft.Agrees b false) (callStatement v c) (callStatement v c') := by
  have hfields : (fun f => (c' f).value) = fun f => (c f).value := funext h.value
  have hplain := plainStatement_agrees h
  have harguments : (c .arguments).Expresses b (c' .arguments) := h.expression hkind rfl rfl
  rw [callStatement, callStatement, hfields]
  refine agree_read fun s => agree_get fun locals => ?_
  refine agree_ask (settled_isOutputCall s locals _) fun isOutput _ => ?_
  obtain ⟨zs, hitems, hitems'⟩ := exists_pairs harguments.elements
  rw [hitems, hitems']
  rcases isOutput with _ | _
  · exact hplain
  · rcases zs with _ | ⟨z, zs⟩
    · exact hplain
    · exact (outputCall_agrees (h.value _) (h.isMet hkind .name rfl)
        z.related).mono
        fun _ _ hd => hd.loosen

theorem statement_agrees (h : PartsAgree b v c c') :
    Agree (Draft.Agrees b false) (statement v c) (statement v c') := by
  rw [statement, statement]
  split
  · exact conditionalStatement_agrees (by decide) ‹_› (.inl rfl) h
  · exact conditionalStatement_agrees (by decide) ‹_› (.inr rfl) h
  · exact callStatement_agrees ‹_› h
  · exact plainStatement_agrees h

theorem body_agrees (file : Bool) (h : PartsAgree b v c c') :
    Agree (Draft.Agrees b false) (body file v c) (body file v c') := by
  rw [body, body]
  split
  · exact agree_pure agrees_nil
  split
  · rename_i hkind
    exact sequenceOf_agrees file (h.part _ (eq_of_beq hkind) .body rfl)
  · exact Sequence.write_agrees file (.cons ⟨rfl, statement_agrees h, h.filled⟩ .nil)

theorem hashElement_agrees (h : PartsAgree b v c c') :
    Agree (Text.Agrees b true) (hashElement v c) (hashElement v c') := by
  rw [hashElement, hashElement]
  split
  · exact pair_agrees (h.expression ‹_› rfl rfl) (h.expression ‹_› rfl rfl)
  · exact spread_agrees (by decide) (h.expression ‹_› rfl rfl)
  · exact agree_throw fun _ => rfl

theorem argument_agrees (h : PartsAgree b v c c') :
    Agree (Text.Agrees b (!v.isKind .statements)) (argument v c (expression v c))
      (argument v c' (expression v c')) := by
  have hexpression : Agree (Text.Agrees b (!v.isKind .statements))
      (do
        let text ← (expression v c).built
        let child ← v.operator?
        return text.grouped (child.any fun child => child.needsParensAt Operator.argumentRank))
      (do
        let text ← (expression v c').built
        let child ← v.operator?
        return text.grouped (child.any fun child => child.needsParensAt Operator.argumentRank)) :=
    (expression_agrees h).built.bind fun _ _ ht => agree_ask (Value.settled_operator? v)
      fun _ _ => agree_pure (ht.grouped _)
  cases v with
  | node kind field =>
    cases kind
    case splat | blockArgument => exact spread_agrees (by decide) (h.expression rfl rfl rfl)
    case doubleSplat => exact hashElement_agrees h
    case keywordHash =>
      exact hashElements_agrees (h.part .keywordHash rfl .elements rfl)
        fun _ => h.isMet rfl .elements rfl
    all_goals exact hexpression
  | _ => exact hexpression

theorem alternate_agrees (h : PartsAgree b v c c') :
    Agree (Draft.Agrees b false) (alternate v c) (alternate v c') := by
  rw [alternate, alternate]
  split
  · rename_i hkind
    have hkind := eq_of_beq hkind
    exact (conditional_agrees (by decide) (h.expression hkind rfl rfl)
      (h.part _ hkind .statements rfl)
      (h.part _ hkind .alternate rfl)).mono fun _ _ hd => hd.loosen
  · exact elseBranch_agrees v fun hkind =>
      h.part _ (eq_of_beq hkind) .statements rfl

/-- A filled value whose parts are written in the same way but for blanks is so too, in every role
it can play. -/
theorem write_agrees (h : PartsAgree b v c c') :
    Rendition.Agrees b ⟨v, write v c⟩ ⟨v, write v c'⟩ := by
  have hname : (c' .name).value = (c .name).value := h.value .name
  have part (f : Field) (hf : f ≠ .location) (hhas : v.kind?.any (·.has f) = true) :
      (c f).Agrees b (c' f) := by
    obtain ⟨kind, hkind, hhas⟩ := (Option.any_eq_true _ _).mp hhas
    exact h.part kind hkind f (Kind.owns_of_has hf hhas)
  have hvalue (hhasName : v.kind?.any (·.has .name) = true)
      (hhasValue : v.kind?.any (·.has .value) = true) : (c .value).Expresses b (c' .value) := by
    obtain ⟨kind, hkind, hhasName⟩ := (Option.any_eq_true _ _).mp hhasName
    rw [hkind] at hhasValue
    refine h.expression hkind (Kind.owns_of_has (by decide) hhasValue) ?_
    revert hhasName hhasValue
    cases kind <;> decide
  refine ⟨rfl, fun role hfits => ?_, h.filled⟩
  cases role with
  | expression => exact expression_agrees h
  | statement => exact statement_agrees h
  | body file => exact body_agrees file h
  | argument => exact (argument_agrees h).map fun _ _ ht => agrees_of ht
  | hashElement => exact (hashElement_agrees h).map fun _ _ ht => agrees_of ht
  | whenClause =>
    refine whenClause_agrees v (part _ (by decide)) (part _ (by decide)) fun hhas hhas' => ?_
    obtain ⟨kind, hkind, hhas⟩ := (Option.any_eq_true _ _).mp hhas
    rw [hkind] at hhas'
    obtain rfl := Kind.eq_of_has_conditions hhas hhas'
    exact Bool.and_eq_true_iff.mp (h.isMet hkind .conditions rfl)
  | rescueClause =>
    refine (rescueClause_agrees v (h.value _) fun hhas => ?_).mono fun _ _ hd => hd.loosen
    obtain ⟨kind, hkind, hhas⟩ := (Option.any_eq_true _ _).mp hhas
    obtain rfl := Kind.eq_of_has_exceptions hhas
    exact ⟨h.part _ hkind _ rfl, h.isMet hkind .reference rfl,
      h.part _ hkind _ rfl⟩
  | elseBranch =>
    exact elseBranch_agrees v fun hkind => h.part _ (eq_of_beq hkind) _ rfl
  | alternate => exact alternate_agrees h
  | ensureClause =>
    exact (ensureClause_agrees v (part _ (by decide))).mono fun _ _ hd => hd.loosen
  | parameters =>
    exact (parameters_agrees v fun hkind => h.part _ hkind).map fun _ _ ht => agrees_of ht
  | parameter sign => exact (parameter_agrees v hname sign).map fun _ _ ht => agrees_of ht
  | optionalParameter =>
    exact (optionalParameter_agrees v hname hvalue).map fun _ _ ht => agrees_of ht
  | keywordParameter =>
    exact (keywordParameter_agrees v hname hvalue).map fun _ _ ht => agrees_of ht
  | slot =>
    exact (h.part _ (eq_of_beq hfits) .statements rfl).whole.write (.body false) rfl
  | loopVariable =>
    refine loopVariable_agrees v hname fun hhas => ?_
    obtain ⟨kind, hkind, hhas⟩ := (Option.any_eq_true _ _).mp hhas
    obtain ⟨hhas, hparameter⟩ := Bool.and_eq_true_iff.mp hhas
    have hmet := h.isMet hkind .name (Kind.owns_of_has (by decide) hhas)
    rw [Kind.demand, if_neg (by simpa using hparameter)] at hmet
    exact hmet
  | block =>
    exact (block_agrees (h.part _ (eq_of_beq hfits) .parameters rfl)
      (h.part _ (eq_of_beq hfits) .body rfl)).mono fun _ _ hd => hd.loosen

end Roles
end Rules
end TerseRuby
