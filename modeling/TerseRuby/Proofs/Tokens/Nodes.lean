import TerseRuby.Proofs.Tokens.Rules

/-!
# Every tree closes what it opens

The lemmas `settles_…` go on with control structures, and then with all kinds of nodes in all roles.
The main result is `Value.settles_rendition`.  In a tree with proper names everything that is
written inside a file closes the brackets, strings and comments that it opens.
-/

set_option autoImplicit false

namespace TerseRuby

open Writer (ensures_pure ensures_throw ensures_lift ensures_ite ensures_mapM ensures_read
  ensures_get)
open FieldRendition (settles_ifPresent)
open Draft (settled_of settled_lit settled_nil settled_word settled_separator
  settled_afterKeyword)

variable {o : Options} {v : Value} {c : Field → FieldRendition}

namespace Rules

/-! ## Control structures -/

theorem settles_elseBranch (h : PartsSettle o v c) : (elseBranch v c).Settles o :=
  ensures_ite (fun _ => ensures_pure settled_nil) fun _ => ensures_ite
    (fun hkind => (settles_clause (h.part (eq_of_beq hkind) rfl)).bind fun _ hd =>
      ensures_pure ((settled_lit (by decide)).append hd))
    fun _ => ensures_throw _

theorem settles_conditional (h : PartsSettle o v c) (hkind : v.kind? = some .ifThen)
    {keyword : String} (hkeyword : Text.isKeyword keyword = true) :
    (conditional keyword c).Settles o :=
  ((h.part hkind rfl).whole.text rfl rfl).bind fun _ ht =>
    (settles_clause (h.part hkind rfl)).bind fun _ hd =>
      ((h.part hkind rfl).whole.write .alternate rfl rfl).bind fun _ he =>
        ensures_pure (((settled_afterKeyword hkeyword ht).append hd).append he)

theorem settles_alternate (h : PartsSettle o v c) : (alternate v c).Settles o :=
  ensures_ite (fun hkind => settles_conditional h (eq_of_beq hkind) (by decide))
    fun _ => settles_elseBranch h

theorem settles_ifThen (h : PartsSettle o v c) (hkind : v.kind? = some .ifThen) :
    (ifThen c).Settles o :=
  (settles_conditional h hkind (by decide)).bind fun _ hd =>
    ensures_pure (hd.append (settled_lit (by decide)))

theorem settles_unlessThen (h : PartsSettle o v c) (hkind : v.kind? = some .unlessThen) :
    (unlessThen c).Settles o :=
  ((h.part hkind rfl).whole.text rfl rfl).bind fun _ ht =>
    (settles_clause (h.part hkind rfl)).bind fun _ hd =>
      ((h.part hkind rfl).whole.write .elseBranch rfl rfl).bind fun _ he =>
        ensures_pure ((((settled_afterKeyword (by decide) ht).append hd).append he).append
          (settled_lit (by decide)))

theorem settles_postfixConditional (hstatements : (c .statements).Settles o)
    (hpredicate : (c .predicate).Settles o) {keyword : String}
    (hkeyword : Text.isKeyword keyword = true) : (postfixConditional keyword c).Settles o := by
  refine (hstatements.whole.write (.body false) rfl rfl).bind fun body hd =>
    (hpredicate.whole.text rfl rfl).bind fun _ ht => ensures_pure ?_
  rw [List.append_assoc]
  exact (hd.append (settled_lit (by decide))).append (settled_afterKeyword hkeyword ht)

theorem settles_whenClause (h : PartsSettle o v c) : (whenClause v c).Settles o :=
  (ensures_require v .conditions).bind fun _ hconditions =>
    (h.part_of_has (by decide) hconditions).sequence.bind fun _ hitems =>
      (settlesText_arguments hitems forall_mem_none).bind fun _ ht =>
        (ensures_require v .statements).bind fun _ hstatements =>
          (settles_clause (h.part_of_has (by decide) hstatements)).bind fun _ hd =>
            ensures_pure ((settled_afterKeyword (by decide) ht).append hd)

theorem settles_caseOf (hpredicate : (c .predicate).Settles o)
    (hconditions : (c .conditions).Settles o) (halternate : (c .alternate).Settles o) :
    (caseOf c).Settles o := by
  have hsubject : ((c .predicate).ifPresent
      (Draft.afterKeyword <$> (c .predicate).text .expression)).Ensures (fun _ => True)
        fun subject => (Draft.lit "case" ++ subject).Settled o := by
    refine FieldRendition.ensures_ifPresent ?_ fun _ => ?_
    · exact (settled_lit (by decide)).append settled_nil
    · exact (hpredicate.whole.text rfl rfl).map fun _ ht => settled_afterKeyword (by decide) ht
  refine hsubject.bind fun subject hd => hconditions.sequence.bind fun items hitems =>
    (ensures_mapM fun e he => (hitems e he).write .whenClause rfl rfl).bind fun _ hbranches =>
      (halternate.whole.write .elseBranch rfl rfl).bind fun _ he => ensures_pure ?_
  exact (((hd.append settled_separator).append (Draft.settled_flatten hbranches)).append
    he).append (settled_lit (by decide))

theorem settles_loop (hpredicate : (c .predicate).Settles o)
    (hstatements : (c .statements).Settles o) {keyword : String}
    (hkeyword : Text.isKeyword keyword = true) : (loop keyword c).Settles o :=
  (Writer.Ensures.withBraces (hpredicate.whole.text rfl rfl) true).bind fun _ ht =>
    (settles_clause hstatements).bind fun _ hd => ensures_pure
      (((settled_afterKeyword hkeyword ht).append hd).append (settled_lit (by decide)))

theorem settles_loopVariable (h : PartsSettle o v c) : (loopVariable v c).Settles o := by
  unfold loopVariable
  split
  · rename_i hkind
    exact (ensures_declared _).bind fun _ _ =>
      ensures_pure (settled_word (h.isWord_name hkind rfl))
  · rename_i hkind
    exact (ensures_declared _).bind fun _ _ =>
      ensures_pure (settled_word (h.isWord_name hkind rfl))
  · rename_i hkind
    exact ensures_pure (settled_word (h.isWord_name hkind rfl))
  · rename_i hkind
    exact ensures_pure (settled_word (h.isWord_name hkind rfl))
  · exact ensures_throw _

theorem settles_forLoop (hindex : (c .index).Settles o) (hcollection : (c .collection).Settles o)
    (hstatements : (c .statements).Settles o) : (forLoop c).Settles o :=
  (hindex.whole.write .loopVariable rfl rfl).bind fun _ hd =>
    (Writer.Ensures.withBraces (hcollection.whole.text rfl rfl) true).bind fun _ ht =>
      (settles_clause hstatements).bind fun _ he => ensures_pure
        ((((((settled_lit (by decide)).append hd).append (settled_lit (by decide))).append
          (settled_of ht)).append he).append (settled_lit (by decide)))

theorem settles_rescueClause (h : PartsSettle o v c) : (rescueClause v c).Settles o := by
  refine (ensures_require v .exceptions).bind fun _ hhas => ?_
  obtain ⟨kind, hkind, hhas⟩ := (Option.any_eq_true _ _).mp hhas
  cases Kind.eq_of_has_exceptions hhas
  have hreference : (c .reference).value.IsWord := fun text htext =>
    Value.closedName_of_isIdentifier (h.isProperText (f := .reference) hkind rfl htext)
  have hcapture : ((c .reference).ifPresent do
      Writer.declare (c .reference).value
      return Draft.lit "=>" ++ Draft.word (c .reference).value : Writer Draft).Settles o :=
    settles_ifPresent ((ensures_declared _).bind fun _ _ =>
      ensures_pure ((settled_lit (by decide)).append (settled_word hreference)))
  have hrest (exceptions : Draft) (hd : exceptions.Settled o) : (do
      let reference ← (c .reference).ifPresent do
        Writer.declare (c .reference).value
        return Draft.lit "=>" ++ Draft.word (c .reference).value
      let body ← Sequence.clause (c .statements)
      return Draft.lit "rescue" ++ exceptions ++ reference ++ body : Writer Draft).Settles o :=
    hcapture.bind fun _ he => (settles_clause (h.part hkind rfl)).bind fun _ hbody =>
      ensures_pure ((((settled_lit (by decide)).append hd).append he).append hbody)
  refine ensures_ite (fun _ => ?_) fun _ => hrest [] settled_nil
  exact (h.part hkind rfl).sequence.bind fun _ hitems =>
    (settlesText_arguments hitems forall_mem_none).bind fun _ ht =>
      hrest _ ((settled_lit (by decide)).append (settled_of ht))

theorem settles_ensureClause (h : PartsSettle o v c) : (ensureClause v c).Settles o :=
  (ensures_require v .statements).bind fun _ hhas =>
    (settles_clause (h.part_of_has (by decide) hhas)).bind fun _ hd =>
      ensures_pure ((settled_lit (by decide)).append hd)

theorem settles_beginBlock (hstatements : (c .statements).Settles o)
    (hrescues : (c .rescueClauses).Settles o) (helse : (c .elseClause).Settles o)
    (hensure : (c .ensureClause).Settles o) : (beginBlock c).Settles o :=
  (settles_clause hstatements).bind fun _ h₁ => hrescues.sequence.bind fun _ hitems =>
    (ensures_mapM fun e he => (hitems e he).write .rescueClause rfl rfl).bind fun _ h₂ =>
      (helse.whole.write .elseBranch rfl rfl).bind fun _ h₃ =>
        (settles_ifPresent (hensure.whole.write .ensureClause rfl rfl)).bind fun _ h₄ =>
          ensures_pure ((((((settled_lit (by decide)).append h₁).append
            (Draft.settled_flatten h₂)).append h₃).append h₄).append (settled_lit (by decide)))

theorem settles_jump (h : (c .arguments).Settles o) {keyword : String}
    (hkeyword : Text.isKeyword keyword = true) : (jump keyword c).Settles o :=
  ensures_ite (fun _ => (Writer.Ensures.withBraces
      (settlesText_argumentSequence h forall_mem_none) true).bind fun _ ht =>
        ensures_pure (settled_afterKeyword hkeyword ht))
    fun _ => ensures_pure (settled_of (Text.settled_keyword hkeyword))

/-! ## All roles -/

theorem settles_expression (h : PartsSettle o v c) : (expression v c).Settles o := by
  cases v with
  | node kind field =>
    have part (f : Field) (hown : kind.owns f = true) : (c f).Settles o := h.parts f hown
    have name (hown : kind.owns .name = true) : (c .name).value.IsWord := h.isWord_name rfl hown
    have typed (f : Field) (hown : kind.owns f = true) :
        (kind.position f).isTyped (c f).value = true :=
      h.isTyped rfl hown
    cases kind
    case methodDef =>
      exact settles_methodDef (part .receiver rfl) (name rfl) (part .parameters rfl)
        (part .body rfl)
    case classDef =>
      exact settles_classDef (part .constantPath rfl) (part .superclass rfl) (part .body rfl)
    case singletonClass => exact settles_singletonClass (part .expression rfl) (part .body rfl)
    case moduleDef => exact settles_moduleDef (part .constantPath rfl) (part .body rfl)
    case ifThen => exact settles_ifThen h rfl
    case unlessThen => exact settles_unlessThen h rfl
    case caseOf =>
      exact settles_caseOf (part .predicate rfl) (part .conditions rfl) (part .alternate rfl)
    case whileLoop | untilLoop =>
      exact settles_loop (part .predicate rfl) (part .statements rfl) (by decide)
    case forLoop =>
      exact settles_forLoop (part .index rfl) (part .collection rfl) (part .statements rfl)
    case beginBlock =>
      exact settles_beginBlock (part .statements rfl) (part .rescueClauses rfl)
        (part .elseClause rfl) (part .ensureClause rfl)
    case call =>
      exact settles_call (part .receiver rfl) (name rfl) (part .arguments rfl) (part .block rfl)
    case logicalAnd | logicalOr =>
      exact ensures_ite
        (fun _ => settles_logical (part .left rfl) (part .right rfl) (by decide) true)
        fun _ => settles_logical (part .left rfl) (part .right rfl) (by decide) false
    case logicalNot => exact settles_negation (part .expression rfl)
    case returnJump | breakJump | nextJump => exact settles_jump (part .arguments rfl) (by decide)
    case yieldCall => exact settles_yieldCall (part .arguments rfl)
    case superCall => exact settles_superCall (part .arguments rfl) (part .block rfl)
    case integer => exact settles_integer (typed .value rfl)
    case float => exact settles_float _
    case symbol => exact settles_symbol _
    case string => exact settles_string (typed .content rfl)
    case interpolated => exact settles_interpolated (part .parts rfl)
    case array => exact settles_array (part .elements rfl)
    case hash => exact settles_hash (part .elements rfl)
    case range => exact settles_range (part .left rfl) (part .right rfl)
    case parentheses =>
      exact ((part .body rfl).whole.write (.body false) rfl rfl).bind fun _ hd =>
        ensures_pure hd.parenthesized
    case statements => exact settles_sequenceOf (part .body rfl)
    case localRead | instanceRead | globalRead | constantRead =>
      exact ensures_pure (settled_word (name rfl))
    case localWrite => exact settles_localAssignment (name rfl) (part .value rfl)
    case instanceWrite | globalWrite | constantWrite =>
      exact settles_assignment (name rfl) (part .value rfl)
    case constantPath =>
      exact settles_constantPath (part .parent rfl) (name rfl)
        (Value.isText_of_isName (typed .name rfl))
    case operatorWrite =>
      exact settles_compoundAssignment (part .target rfl) (h.isWord_operator rfl rfl)
        (part .value rfl)
    case trueLiteral | falseLiteral | nilLiteral | selfLiteral =>
      exact ensures_pure (settled_lit (by decide))
    all_goals exact ensures_throw _
  | _ => exact ensures_throw _

theorem settles_plainStatement (h : PartsSettle o v c) : (plainStatement v c).Settles o :=
  (ensures_answer _).bind fun _ _ => ensures_ite
    (fun _ => (settles_expression h).built.bind fun _ ht =>
      ensures_pure (settled_of ht).parenthesized)
    fun _ => settles_expression h

theorem settles_conditionalStatement (h : PartsSettle o v c)
    (hstatements : (c .statements).Settles o) (hpredicate : (c .predicate).Settles o)
    {keyword : String} (hkeyword : Text.isKeyword keyword = true) :
    (conditionalStatement keyword v c).Settles o :=
  ensures_read.bind fun _ _ => (ensures_answer _).bind fun _ _ => ensures_ite
    (fun _ => settles_postfixConditional hstatements hpredicate hkeyword)
    fun _ => settles_plainStatement h

theorem settles_callStatement (h : PartsSettle o v c) (hkind : v.kind? = some .call) :
    (callStatement v c).Settles o := by
  refine ensures_read.bind fun s _ => ensures_get.bind fun l _ =>
    (ensures_lift (Q := fun b => isOutputCall s l (fun f => (c f).value) = .ok b)
      fun _ h => h).bind fun b hb => ?_
  split
  · rename_i argument _ hlist
    have hargument := (h.part (f := .arguments) hkind rfl).each argument (by simp [hlist])
    obtain ⟨name, hname, hkeyword⟩ := isKeyword_of_isOutputCall hb
    refine (hargument.text rfl rfl).bind fun _ ht => ensures_pure ?_
    rw [Draft.word, hname]
    exact settled_afterKeyword hkeyword ht
  · exact settles_plainStatement h

theorem settles_statement (h : PartsSettle o v c) : (statement v c).Settles o := by
  unfold statement
  split
  · rename_i hkind
    exact settles_conditionalStatement h (h.part hkind rfl) (h.part hkind rfl) (by decide)
  · rename_i hkind
    exact settles_conditionalStatement h (h.part hkind rfl) (h.part hkind rfl) (by decide)
  · rename_i hkind
    exact settles_callStatement h hkind
  · exact settles_plainStatement h

theorem settles_body (h : PartsSettle o v c) : (body false v c).Settles o :=
  ensures_ite (fun _ => ensures_pure settled_nil) fun _ => ensures_ite
    (fun hkind => settles_sequenceOf (h.part (eq_of_beq hkind) rfl))
    fun _ => settles_sequence
      (List.forall_mem_singleton.mpr ⟨h.spelled, settles_statement h⟩)

/-- **The rules close what they open if the parts do**, in every role that is played inside a
file. -/
theorem settles_write_of_parts (h : PartsSettle o v c) {role : Role} (hrole : role.isInner = true)
    (hfits : v.fits role = true) : (write v c role).Settles o := by
  have hmap {w : Writer Text} (hw : w.SettlesText o) : (Draft.of <$> w).Settles o :=
    Writer.Ensures.map hw fun _ ht => settled_of ht
  cases role with
  | expression => exact settles_expression h
  | statement => exact settles_statement h
  | body file =>
    cases file with
    | false => exact settles_body h
    | true => cases hrole
  | argument => exact hmap (settlesText_argument h (settles_expression h))
  | hashElement => exact hmap (settlesText_hashElement h)
  | whenClause => exact settles_whenClause h
  | rescueClause => exact settles_rescueClause h
  | elseBranch => exact settles_elseBranch h
  | alternate => exact settles_alternate h
  | ensureClause => exact settles_ensureClause h
  | parameters => exact hmap (settlesText_parameters h)
  | parameter sign => exact hmap (settlesText_parameter h (List.all_eq_true.mp hrole))
  | optionalParameter => exact hmap (settlesText_optionalParameter h)
  | keywordParameter => exact hmap (settlesText_keywordParameter h)
  | slot =>
    exact (h.part (f := .statements) (eq_of_beq hfits) rfl).whole.write (.body false) rfl rfl
  | loopVariable => exact settles_loopVariable h
  | block => exact settles_block (h.part (eq_of_beq hfits) rfl) (h.part (eq_of_beq hfits) rfl)

end Rules

/-! ## Trees -/

namespace Value

/-- What is no node has no parts. -/
theorem settles_leafRendition {v : Value} (h : v.isNode = false) : v.leafRendition.Settles o := by
  have hkind : v.kind? = none := by
    cases v with
    | node kind field => cases h
    | _ => rfl
  have hfield (f : Field) : v.field f = .null := by
    cases v with
    | node kind field => cases h
    | _ => rfl
  refine ⟨isSpelled_of_not_isNode h, fun role hrole hfits => ?_⟩
  exact Rules.settles_write_of_parts
    ⟨by simp [hkind], fun f => (hfield f).symm, isSpelled_of_not_isNode h⟩ hrole hfits

/-- What is no node is settled if those of its elements are that are nodes. -/
theorem settles_of_elements {v : Value} (hleaf : v.isNode = false)
    (h : ∀ e ∈ v.elements, e.isNode = true → e.rendition.toRendition.Settles o) :
    v.rendition.Settles o := by
  refine ⟨?_, fun e he => ?_⟩
  · rw [toRendition_of_not_isNode hleaf]
    exact settles_leafRendition hleaf
  · rw [rendition_elements_eq] at he
    obtain ⟨item, hitem, rfl⟩ := List.mem_map.mp he
    cases hnode : item.isNode
    · rw [toRendition_of_not_isNode hnode]
      exact settles_leafRendition hnode
    · exact h item hitem hnode

/-- **What is written of a tree with proper names closes what it opens.** -/
theorem settles_rendition {v : Value} (h : v.isSpelledTree = true) : v.rendition.Settles o := by
  induction v using Value.induction with
  | seq items ih =>
    exact settles_of_elements rfl fun e he hnode => (ih e he (all_preorder_item h he hnode)).whole
  | node kind field ih =>
    have hself := isSpelled_of_isSpelledTree h
    refine ⟨⟨hself, fun role hrole hfits => ?_⟩, List.forall_mem_nil _⟩
    have hparts : PartsSettle o (.node kind field) fun f => (field f).rendition :=
      ⟨fun f hown => ih f (isSpelledTree_field h hown), fun f => rendition_value (field f), hself⟩
    exact Rules.settles_write_of_parts hparts hrole hfits
  -- what is neither a sequence nor a node has no nodes in it
  | _ =>
    refine settles_of_elements rfl fun e he hnode => ?_
    obtain ⟨items, hitems, _⟩ := exists_items_of_mem_elements he hnode
    cases hitems

end Value
end TerseRuby
