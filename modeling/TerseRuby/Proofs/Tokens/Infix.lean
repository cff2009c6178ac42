import TerseRuby.Proofs.Tokens.Nodes
import TerseRuby.Proofs.Tokens.Operators

/-!
# Operators between two operands

A call of an operator, a conjunction or disjunction, and an entry of a hash are written as the left
operand, the operator and the right operand.  The rules put a blank before the operator where they
expect the left operand to take its first character, and nowhere else.

* `Value.text_operation`: how all such nodes are written.
* `Value.isToken_operator_iff`: where the operator is a token of its own.  The rules look at the
  last character of the left operand, and at its kind if it is a symbol.  So they miss a name before
  `!~`, and an operator or a symbol at the end of a larger operand.
* `Value.blank_before_operator_iff`: where there is a blank before the operator and none after it.
  That is the case after every name with a mark, whatever the operator is.  If it is one that can
  also stand before an argument, like a minus sign, the language reads it so.
-/

set_option autoImplicit false

namespace TerseRuby

/-! ## Marks -/

theorem Text.spell_concat (o : Options) (init : Text) (glyph : Glyph) :
    Text.spell o (init ++ [glyph]) = init.spell o ++ glyph.spell o := by
  rw [spell_append]
  simp [spell]

/-- A settled text ends in a mark if its characters do: neither a separator nor a blank that is left
out can hide one. -/
theorem Text.Settled.endsWith_iff {o : Options} {t : Text} (h : t.Settled o) :
    t.endsWith isNameMark = true ↔ (t.spell o).getLast?.any isNameMark = true := by
  rcases List.eq_nil_or_concat t with rfl | ⟨init, glyph, rfl⟩
  · exact Iff.rfl
  · rw [List.concat_eq_append] at h ⊢
    rw [endsWith, List.getLast?_concat, spell_concat]
    cases glyph with
    | char c =>
      rw [Glyph.spell, List.getLast?_concat]
      rfl
    | separator =>
      rw [Glyph.spell, List.getLast?_concat, Option.any_some,
        o.separator_eq_false (p := isNameMark) (by decide)]
    | optionalBlank =>
      obtain ⟨c, hc, hmark⟩ := h.blank init rfl
      obtain ⟨front, rfl⟩ := List.getLast?_eq_some_iff.mp hc
      have hlast : (Text.spell o (front ++ [.char c]) ++ Glyph.spell o .optionalBlank).getLast?.any
          isNameMark = false := by
        rw [Glyph.spell]
        split
        · rw [List.getLast?_concat]
          rfl
        · rw [List.append_nil, spell_concat, Glyph.spell, List.getLast?_concat, Option.any_some,
            hmark]
      rw [hlast]

/-! ## Nodes with an operator between their operands -/

/-- Two operands with an operator between them. -/
structure Operation where
  /-- The left operand. -/
  left : Value
  /-- The operator; none is the arrow between the key and the value of an entry. -/
  operator? : Option Operator
  /-- The right operand. -/
  right : Value

namespace Operation

variable (n : Operation)

/-- The spelling of the operator. -/
def symbol : String := (n.operator?.map Operator.symbol).getD "=>"

/-- The role in which the node is written. -/
def role : Role := if n.operator?.isSome then .expression else .hashElement

/-- How a value is written as one of the operands. -/
def operand (value : Value) (side : Side) : Writer Text :=
  match n.operator? with
  | some op => value.rendition.operand op side
  | none => value.rendition.text .argument

end Operation

namespace Value

/-- The operands and the operator of a node that is written with the operator between them, and
without a blank after it: a call of that form, a conjunction or disjunction that is not spelled as a
word, or an entry of a hash whose key is not written as a label. -/
def operation? : Value → Option Operation
  | .node .call field =>
    match CallShape.of field, (field .arguments).elements with
    | .ok (.binary op), right :: _ => some ⟨field .receiver, some op, right⟩
    | _, _ => none
  | .node .logicalAnd field =>
    if (field .keyword).isTrue then none else some ⟨field .left, some .conjunction, field .right⟩
  | .node .logicalOr field =>
    if (field .keyword).isTrue then none else some ⟨field .left, some .disjunction, field .right⟩
  | .node .pair field =>
    match Rules.keyLabel? (field .key) with
    | .ok none => some ⟨field .key, none, field .value⟩
    | _ => none
  | _ => none

/-- A text that is drafted as it is. -/
theorem built_of (w : Writer Text) : Writer.built (Draft.of <$> w) = w := by
  have hbuild (t : Text) : (liftM (Draft.of t).build : Writer Text) = pure t := by
    rw [Draft.build_of]
    rfl
  rw [Writer.built, bind_map_left]
  simp only [hbuild, bind_pure]

/-- The operands are drafted one after the other, and joined as they are. -/
theorem built_joinInfix (left right : Writer Text) (isSymbol : Bool) (symbol : String) :
    Writer.built (do
      let l ← left
      let r ← right
      return Draft.of (Text.joinInfix isSymbol l symbol r)) = (do
      let l ← left
      let r ← right
      return Text.joinInfix isSymbol l symbol r) := by
  rw [← built_of (do let l ← left; let r ← right; return Text.joinInfix isSymbol l symbol r)]
  simp

theorem built_logical (field : Field → Value) (op : Operator) :
    (Rules.logical (fun f => (field f).rendition) op false).built = (do
      let left ← (field .left).rendition.operand op .left
      let right ← (field .right).rendition.operand op .right
      return Text.joinInfix ((field .left).isKind .symbol) left op.symbol right) := by
  rw [Rules.logical, rendition_value]
  exact built_joinInfix _ _ _ _

/-- **How such a node is written.** -/
theorem text_operation {v : Value} {n : Operation} (h : v.operation? = some n) :
    v.rendition.text n.role = (do
      let left ← n.operand n.left .left
      let right ← n.operand n.right .right
      return Text.joinInfix (n.left.isKind .symbol) left n.symbol right) := by
  unfold operation? at h
  split at h
  · rename_i field
    split at h
    · rename_i op right rest hshape helements
      cases h
      have hcall : Rules.call (fun f => (field f).rendition) =
          Rules.binaryCall (fun f => (field f).rendition) op right.rendition.toRendition := by
        rw [Rules.call]
        simp only [rendition_value, hshape, rendition_elements_eq, helements]
        rfl
      change (Rules.call fun f => (field f).rendition).built = _
      rw [hcall, Rules.binaryCall, rendition_value]
      exact built_joinInfix _ _ _ _
    · cases h
  · rename_i field
    split at h
    · cases h
    · rename_i hkeyword
      cases h
      change Writer.built (if (field .keyword).rendition.value.isTrue then _ else
        Rules.logical (fun f => (field f).rendition) .conjunction false) = _
      rw [rendition_value, if_neg hkeyword, built_logical]
      rfl
  · rename_i field
    split at h
    · cases h
    · rename_i hkeyword
      cases h
      change Writer.built (if (field .keyword).rendition.value.isTrue then _ else
        Rules.logical (fun f => (field f).rendition) .disjunction false) = _
      rw [rendition_value, if_neg hkeyword, built_logical]
      rfl
  · rename_i field
    split at h
    · rename_i hlabel
      cases h
      change Writer.built (Draft.of <$> Rules.pair fun f => (field f).rendition) = _
      rw [built_of, Rules.pair, rendition_value, hlabel]
      rfl
    · cases h
  · cases h

/-- An expression that is an argument begins like one. -/
theorem begins_argument {v : Value} (h : v.isSpelledTree = true)
    (hplays : v.canPlay .expression = true) :
    (v.rendition.text .argument).Ensures (fun _ => True) Text.Begins := by
  have hbegins := begins_rendition (isNamedTree_of_isSpelledTree h)
    (isKind_statements_of_canPlay hplays)
  cases v with
  | node kind field =>
    change (Writer.built (Draft.of <$> Rules.argument (.node kind field)
      (fun f => (field f).rendition) _)).Ensures _ _
    rw [built_of]
    unfold Rules.argument
    split
    case h_5 =>
      exact hbegins.text.bind fun _ ht => (Writer.ensures_lift fun _ _ => trivial).bind
        fun _ _ => Writer.ensures_pure (ht.grouped _)
    -- the other kinds are no expressions
    all_goals
      rename_i hkind
      cases hkind
      cases hplays
  | _ => cases hplays

end Value

/-! ## The operands -/

theorem CallShape.isBinaryMethod_of_binary? {field : Field → Value} {op : Operator}
    (h : binary? field = .ok (some op)) : op.isBinaryMethod = true := by
  obtain ⟨found, hfound, h⟩ := exists_of_bind_eq_ok h
  split at h
  · cases h
  · obtain ⟨single, -, h⟩ := exists_of_bind_eq_ok h
    have hop := Except.ok.inj h
    split at hop
    · cases hop
      obtain ⟨-, -, hfound⟩ := exists_of_bind_eq_ok hfound
      exact (Option.filter_eq_some_iff.mp (Except.ok.inj hfound)).2
    · cases hop

theorem mem_infixes_of_isBinaryMethod {op : Operator} (h : op.isBinaryMethod = true) :
    op.symbol.toList ∈ Lexer.infixes := by
  revert h
  cases op <;> decide

/-- What is known of the operands and the operator. -/
structure Operation.IsProper (n : Operation) : Prop where
  /-- The operator is one of those that are written between operands. -/
  mem_infixes : n.symbol.toList ∈ Lexer.infixes
  /-- The left operand has proper names. -/
  left : n.left.isSpelledTree = true
  /-- So has the right operand. -/
  right : n.right.isSpelledTree = true

theorem Value.isProper_operation {v : Value} {n : Operation} (h : v.operation? = some n)
    (hspelled : v.isSpelledTree = true) (hright : n.right.canPlay .expression = true) :
    n.IsProper := by
  unfold operation? at h
  split at h
  · rename_i field
    split at h
    · rename_i op right rest hshape helements
      cases h
      have hnode : right.isNode = true := by
        cases right with
        | node kind field => rfl
        | _ => cases hright
      obtain ⟨items, hitems, hmem⟩ := exists_items_of_mem_elements
        (helements ▸ List.mem_cons_self : right ∈ (field .arguments).elements) hnode
      have harguments : (field .arguments).isSpelledTree = true := isSpelledTree_field hspelled rfl
      rw [hitems] at harguments
      refine ⟨?_, isSpelledTree_field hspelled rfl, all_preorder_item harguments hmem hnode⟩
      obtain (h | h) | ⟨_, h, _⟩ | ⟨_, h, hbinary⟩ | ⟨h, _⟩ | ⟨h, _⟩ :=
        CallShape.cases_of_eq_ok hshape
      all_goals cases h
      exact mem_infixes_of_isBinaryMethod (CallShape.isBinaryMethod_of_binary? hbinary)
    · cases h
  · split at h
    · cases h
    · cases h
      exact ⟨(by decide : "&&".toList ∈ Lexer.infixes), isSpelledTree_field hspelled rfl,
        isSpelledTree_field hspelled rfl⟩
  · split at h
    · cases h
    · cases h
      exact ⟨(by decide : "||".toList ∈ Lexer.infixes), isSpelledTree_field hspelled rfl,
        isSpelledTree_field hspelled rfl⟩
  · split at h
    · cases h
      exact ⟨(by decide : "=>".toList ∈ Lexer.infixes), isSpelledTree_field hspelled rfl,
        isSpelledTree_field hspelled rfl⟩
    · cases h
  · cases h

namespace Operation

variable {n : Operation} {o : Options}

theorem settlesText_operand {value : Value} (h : value.isSpelledTree = true) (side : Side) :
    (n.operand value side).SettlesText o := by
  have hsettles := (Value.settles_rendition (o := o) h).whole
  unfold operand
  split
  · exact hsettles.operand _ _
  · exact hsettles.text rfl rfl

theorem begins_operand {value : Value} (h : value.isSpelledTree = true)
    (hplays : value.canPlay .expression = true) (side : Side) :
    (n.operand value side).Ensures (fun _ => True) Text.Begins := by
  unfold operand
  split
  · exact (Value.begins_rendition (Value.isNamedTree_of_isSpelledTree h)
      (Value.isKind_statements_of_canPlay hplays)).operand _ _
  · exact Value.begins_argument h hplays

/-- The blank that is written before the operator, if any. -/
def gap (n : Operation) (left : Text) : List Char :=
  if Text.fuses (n.left.isKind .symbol) left n.symbol then [' '] else []

/-- What the two operands of a node are written as, one after the other. -/
structure IsWritten (n : Operation) (o : Options) (s : Setting) (l l' : Locals)
    (left right : Text) : Prop where
  /-- The operands are written in order, the second with the variables of the first. -/
  runs : ∃ m, ((n.operand n.left .left).run s).run l = .ok (left, m) ∧
    ((n.operand n.right .right).run s).run m = .ok (right, l')
  /-- The left one closes what it opens. -/
  settled : left.Settled o
  /-- The right one begins like an expression. -/
  begins : right.Begins

end Operation

namespace Value

variable {v : Value} {n : Operation} {s : Setting} {l l' : Locals} {text : Text}

/-- The text of a node is made of those of its operands. -/
theorem exists_isWritten (hoperation : v.operation? = some n) (hspelled : v.isSpelledTree = true)
    (hright : n.right.canPlay .expression = true) (o : Options)
    (h : ((v.rendition.text n.role).run s).run l = .ok (text, l')) :
    ∃ left right, n.IsWritten o s l l' left right ∧
      text.spell o = left.spell o ++ n.gap left ++ n.symbol.toList ++ right.spell o := by
  have hproper := isProper_operation hoperation hspelled hright
  rw [text_operation hoperation, ReaderT.run_bind, StateT.run_bind] at h
  obtain ⟨⟨left, m⟩, hleft, h⟩ := exists_of_bind_eq_ok h
  rw [ReaderT.run_bind, StateT.run_bind] at h
  obtain ⟨⟨right, m'⟩, hrun, h⟩ := exists_of_bind_eq_ok h
  cases h
  refine ⟨left, right, ⟨⟨m, hleft, hrun⟩, ?_, ?_⟩, ?_⟩
  · exact (n.settlesText_operand hproper.left .left s l left m trivial hleft).2
  · exact (n.begins_operand hproper.right hright .right s m right _ trivial hrun).2
  · rw [Text.joinInfix, Operation.gap]
    split <;> simp [Text.lit]

end Value

/-- The first character of a text that begins like an expression. -/
theorem Text.Begins.head_spell {t : Text} (h : t.Begins) (o : Options) :
    (t.spell o).head?.any Lexer.isStart = true := by
  cases t with
  | nil => cases h
  | cons glyph t =>
    cases glyph with
    | char c => exact h
    | _ => cases h

namespace Operation

open Lexer (after isBoundary isToken)

variable {n : Operation} {o : Options} {s : Setting} {l l' : Locals} {left right : Text}

/-- Where a blank is written, the operator is a token of its own. -/
theorem isToken_of_gap (h : n.IsWritten o s l l' left right)
    (hop : n.symbol.toList ∈ Lexer.infixes) (rest : List Char) :
    isBoundary (left.spell o) (' ' :: rest) = true ∧
      isToken (left.spell o ++ [' ']) n.symbol.toList (right.spell o) = true := by
  obtain ⟨m, hm, hafter⟩ := h.settled.closed .gap [] rfl
  have hleft : after (left.spell o) = ⟨m, []⟩ := hafter
  have hblank : after (left.spell o ++ [' ']) = ⟨.gap, []⟩ := by
    rw [after, Lexer.feedAll_append, hafter]
    exact Lexer.feed_blank hm
  refine ⟨?_, ?_⟩
  · rw [isBoundary, hleft, Lexer.not_goesOn_blank hm]
    rfl
  · rw [Lexer.isToken_of_mem_infixes hblank rfl rfl hop (h.begins.head_spell o)]
    rfl

/-- Where none is written, the left operand does not end in a mark, and the operator is a token of
its own unless it is taken by the last token of the left operand. -/
theorem isToken_of_no_gap (h : n.IsWritten o s l l' left right)
    (hop : n.symbol.toList ∈ Lexer.infixes) (hgap : n.gap left = []) :
    isToken (left.spell o) n.symbol.toList (right.spell o) =
      !(after (left.spell o)).mode.absorbs n.symbol.toList (right.spell o) := by
  obtain ⟨m, hm, hafter⟩ := h.settled.closed .gap [] rfl
  have hleft : after (left.spell o) = ⟨m, []⟩ := hafter
  have hfuses : Text.fuses (n.left.isKind .symbol) left n.symbol = false := by
    rw [gap] at hgap
    split at hgap
    · cases hgap
    · exact Bool.eq_false_iff.mpr ‹_›
  have hmark : m.isMarked = false := by
    rw [Bool.eq_false_iff]
    intro hmarked
    rw [Text.fuses, Bool.or_eq_false_iff] at hfuses
    have hends := h.settled.endsWith_iff.mpr
      (Lexer.getLast?_of_isMarked (by rw [hleft]; exact hmarked))
    rw [hfuses.1] at hends
    cases hends
  rw [hleft, Lexer.isToken_of_mem_infixes hleft hm hmark hop (h.begins.head_spell o)]

end Operation

namespace Value

open Lexer (after isBoundary isToken)

/-- A node with the given name. -/
def named (kind : Kind) (name : String) : Value := .ofFields kind [(.name, .scalar (.str name))]

/-- A call with one argument. -/
def callOf (receiver : Value) (name : String) (argument : Value) : Value :=
  .ofFields .call
    [(.receiver, receiver), (.name, .scalar (.str name)), (.arguments, .seq [argument])]

/-- A call without arguments of a method of the variable `a`. -/
def callOnVariable (name : String) : Value :=
  .ofFields .call [(.receiver, named .localRead "a"), (.name, .scalar (.str name))]

/-- **Where an operator is a token of its own.**  The text of a node with an operator between its
operands is the text of the left operand, a blank if the rules ask for one, the operator, and the
text of the right operand.  The left operand ends with a token and the operator is the next one,
unless there is no blank and the last token of the left operand takes the operator: that is, it is
a name before `!~`, or an operator, or a symbol spelled like one, that the first character of the
operator makes longer. -/
theorem isToken_operator_iff (v : Value) (n : Operation) (hoperation : v.operation? = some n)
    (hspelled : v.isSpelledTree = true) (hright : n.right.canPlay .expression = true)
    (o : Options) (s : Setting) (l l' : Locals) (text : Text)
    (h : ((v.rendition.text n.role).run s).run l = .ok (text, l')) :
    ∃ left right m, ((n.operand n.left .left).run s).run l = .ok (left, m) ∧
      ((n.operand n.right .right).run s).run m = .ok (right, l') ∧
      text.spell o = left.spell o ++ n.gap left ++ n.symbol.toList ++ right.spell o ∧
      ((isBoundary (left.spell o) (n.gap left ++ n.symbol.toList ++ right.spell o) = true ∧
          isToken (left.spell o ++ n.gap left) n.symbol.toList (right.spell o) = true) ↔
        (n.gap left = [] →
          (after (left.spell o)).mode.absorbs n.symbol.toList (right.spell o) = false)) := by
  have hop := (isProper_operation hoperation hspelled hright).mem_infixes
  obtain ⟨left, right, hwritten, htext⟩ := exists_isWritten hoperation hspelled hright o h
  obtain ⟨m, hleft, hrun⟩ := hwritten.runs
  refine ⟨left, right, m, hleft, hrun, htext, ?_⟩
  by_cases hgap : n.gap left = []
  · have htoken := Operation.isToken_of_no_gap hwritten hop hgap
    rw [hgap, List.nil_append, List.append_nil, htoken, Bool.not_eq_true']
    refine ⟨fun hboth _ => hboth.2, fun hnone => ⟨?_, hnone rfl⟩⟩
    exact Lexer.isBoundary_of_isToken (by rw [htoken, hnone rfl]; rfl)
  · have hblank : n.gap left = [' '] := by
      rw [Operation.gap] at hgap ⊢
      split
      · rfl
      · rename_i hfuses
        rw [if_neg hfuses] at hgap
        exact absurd rfl hgap
    rw [hblank]
    exact ⟨fun _ hnil => absurd hnil (List.cons_ne_nil _ _),
      fun _ => Operation.isToken_of_gap hwritten hop _⟩

theorem isToken_operator_iff_marked :
    isBoundary "a.ok?".toList " ==b".toList = true ∧
      isToken "a.ok? ".toList "==".toList "b".toList = true := by
  obtain ⟨left, right, m, hleft, hright, -, hiff⟩ := isToken_operator_iff
    (callOf (callOnVariable "ok?") "==" (named .localRead "b"))
    ⟨callOnVariable "ok?", some .equal, named .localRead "b"⟩ rfl (by decide) rfl .default
    (Setting.ofOptions .default) [] [] _ rfl
  cases hleft
  cases hright
  exact hiff.mpr fun hgap => absurd hgap (by decide)

/-- A name takes the exclamation mark of the operator after it. -/
theorem isBoundary_name_miss :
    render .default (callOf (named .localRead "a") "!~" (named .localRead "b")) = .ok "a!~b" ∧
      isBoundary "a".toList "!~b".toList = false := by
  decide

/-- **Where there is a blank before an operator and none after it.**  If the left operand is no
symbol, and its text ends in the name of a method, then the text has a blank before the operator and
none after it exactly if the name has a mark at its end. -/
theorem blank_before_operator_iff (v : Value) (n : Operation) (hoperation : v.operation? = some n)
    (hsymbol : n.left.isKind .symbol = false) (hspelled : v.isSpelledTree = true)
    (hright : n.right.canPlay .expression = true)
    (o : Options) (s : Setting) (l l' : Locals) (text : Text)
    (h : ((v.rendition.text n.role).run s).run l = .ok (text, l')) :
    ∃ left right m, ((n.operand n.left .left).run s).run l = .ok (left, m) ∧
      ((n.operand n.right .right).run s).run m = .ok (right, l') ∧
      text.spell o = left.spell o ++ n.gap left ++ n.symbol.toList ++ right.spell o ∧
      ∀ front name, left.spell o = front ++ name → Literal.isMethodName name = true →
        ((n.gap left = [' '] ∧ (right.spell o).head? ≠ some ' ') ↔
          name.getLast?.any Text.isNameMark = true) := by
  obtain ⟨left, right, hwritten, htext⟩ := exists_isWritten hoperation hspelled hright o h
  obtain ⟨m, hleft, hrun⟩ := hwritten.runs
  refine ⟨left, right, m, hleft, hrun, htext, fun front name hends hname => ?_⟩
  have hafter : (right.spell o).head? ≠ some ' ' := by
    intro hblank
    have hstart := hwritten.begins.head_spell o
    rw [hblank] at hstart
    exact absurd hstart (by decide)
  have hlast : (left.spell o).getLast? = name.getLast? := by
    rw [hends, List.getLast?_append_of_ne_nil]
    exact (Lexer.forall_isPlain_of_isMethodName hname).1
  rw [← hlast, ← hwritten.settled.endsWith_iff, Operation.gap, Text.fuses, hsymbol]
  cases left.endsWith Text.isNameMark <;> simp [hafter]

theorem blank_before_operator_iff_unmarked :
    ¬(Operation.gap ⟨callOnVariable "m", some .minus, named .localRead "x"⟩
        (Text.lit "a.m") = [' '] ∧ "x".toList.head? ≠ some ' ') := by
  obtain ⟨left, right, m, hleft, hright, -, hiff⟩ := blank_before_operator_iff
    (callOf (callOnVariable "m") "-" (named .localRead "x"))
    ⟨callOnVariable "m", some .minus, named .localRead "x"⟩ rfl rfl (by decide) rfl .default
    (Setting.ofOptions .default) [] [] _ rfl
  cases hleft
  cases hright
  exact fun hblank => absurd ((hiff "a.".toList "m".toList rfl rfl).mp hblank) (by decide)

/-- A minus sign after a name with a mark has a blank before it and none after it. -/
theorem render_marked_minus :
    render .default (callOf (callOnVariable "m?") "-" (named .localRead "x")) = .ok "a.m? -x" := by
  decide

end Value
end TerseRuby
