import TerseRuby.Proofs.Expression.Syntax
import TerseRuby.Proofs.Writing

/-!
# The trees of operator expressions

`Expr.IsTree e v` says that the tree `v` is the expression `e`: the node kinds and the fields that
the rules read are those of `e`, and everything else in the tree, such as the locations of its
nodes, is arbitrary.  The result of this file is `IsTree.isWritten`: whatever the setting, such a
tree is written as the lexemes of its expression.  An integer may have more digits than are ever
written, and then nothing is (`IsTree.needs_short`), so `IsTree.render_eq` says when there is a text
and `IsTree.eq_of_render` what it is.

The rules find out about an operand by asking its tree for its operator, and about a call by asking
for its shape; `IsTree.operator?` and the lemmas on `CallShape.of` answer these questions.
-/

set_option autoImplicit false

namespace TerseRuby

/-- Every character of an identifier may stand in a name. -/
theorem Literal.isWord_of_mem {text : List Char} (h : isIdentifier text = true) {c : Char}
    (hc : c ∈ text) : CharClass.isWord c = true := by
  cases text with
  | nil => exact nomatch hc
  | cons d rest =>
    rw [isIdentifier, Bool.and_eq_true, CharClass.isNameStart, Bool.and_eq_true,
      List.all_eq_true] at h
    obtain rfl | hc := List.mem_cons.mp hc
    · exact h.1.1
    · exact h.2 c hc

theorem Literal.ne_nil_of_isIdentifier {text : List Char} (h : isIdentifier text = true) :
    text ≠ [] := by
  rintro rfl
  exact nomatch h

/-! ## The shapes of calls -/

namespace CallShape

variable {field : Field → Value}

/-- The fields of a call that has neither a block nor a dot that skips an absent receiver. -/
structure IsBare (field : Field → Value) : Prop where
  /-- There is a receiver. -/
  receiver : (field .receiver).isNull = false
  /-- There is no block. -/
  block : field .block = .null
  /-- The dot is a plain one. -/
  safeNavigation : field .safeNavigation = .scalar (.bool false)

theorem IsBare.isUnadorned (h : IsBare field) : isUnadorned field = true := by
  simp [CallShape.isUnadorned, h.block, h.safeNavigation, Value.null, Value.isNull, Value.isTrue,
    Scalar.isTrue]

theorem methodOperator?_symbol (group : Operator → Bool) (op : Operator) :
    methodOperator? group (.scalar (.str op.symbol)) =
      .ok (if group op then some op else none) := by
  simp only [methodOperator?, Value.checkKey_str, Value.text?, Option.bind_some,
    Operator.ofSymbol?_symbol, Option.filter]
  rfl

theorem unary?_unary {op : Operator} (h : IsBare field) (hop : op.isUnaryMethod = true)
    (hname : field .name = .scalar (.str op.symbol)) (harguments : field .arguments = .empty) :
    unary? field = .ok (some op) := by
  simp [unary?, hname, methodOperator?_symbol, hop, harguments, h.isUnadorned, Value.empty,
    Value.isTrue, bind, Except.bind, pure, Except.pure]

theorem of_unary {op : Operator} (h : IsBare field) (hop : op.isUnaryMethod = true)
    (hname : field .name = .scalar (.str op.symbol)) (harguments : field .arguments = .empty) :
    of field = .ok (.unary op) := by
  simp [of, h.receiver, unary?_unary h hop hname harguments, bind, Except.bind, pure, Except.pure]

theorem unary?_binary {op : Operator} (hop : op.isBinaryMethod = true)
    (hname : field .name = .scalar (.str op.symbol)) : unary? field = .ok none := by
  have hgroup : op.isUnaryMethod = false := by cases op <;> first | rfl | exact nomatch hop
  simp [unary?, hname, methodOperator?_symbol, hgroup, bind, Except.bind, pure, Except.pure]

theorem of_binary {op : Operator} {argument : Value} (h : IsBare field)
    (hop : op.isBinaryMethod = true) (hname : field .name = .scalar (.str op.symbol))
    (harguments : field .arguments = .seq [argument])
    (hargument : argument.inGroup Kind.isSpread = false) :
    of field = .ok (.binary op) := by
  have hbinary : binary? field = .ok (some op) := by
    simp [binary?, hname, methodOperator?_symbol, hop, isSingleValue, harguments, Value.length,
      Value.isCollection, Value.elements, Value.elementAt, hargument, h.isUnadorned, bind,
      Except.bind, pure, Except.pure]
  simp [of, h.receiver, unary?_binary hop hname, hbinary, bind, Except.bind, pure, Except.pure]

/-- A name is no operator. -/
theorem methodOperator?_name {group : Operator → Bool} (x : Name)
    (hgroup : ∀ op ∈ Operator.all, group op = true →
      ¬Literal.isIdentifier op.symbol.toList = true) :
    methodOperator? group (.scalar (.str x.text)) = .ok none := by
  have hnone : (Operator.ofSymbol? x.text).filter group = none := by
    rw [Option.filter_eq_none_iff]
    intro op hop hmember
    have hsymbol : op.symbol = x.text := by simpa using List.find?_some hop
    exact hgroup op (Operator.mem_all op) hmember (hsymbol ▸ x.isIdentifier)
  simp only [methodOperator?, Value.checkKey_str, Value.text?, Option.bind_some, hnone]
  rfl

/-- A name does not end like that of a method that assigns. -/
theorem isSetterName_name (x : Name) : isSetterName x.text = false := by
  have hequals : CharClass.isWord '=' = false := by decide
  rw [isSetterName, Bool.and_eq_false_iff, beq_eq_false_iff_ne]
  refine Or.inl fun hlast => ?_
  have hword := Literal.isWord_of_mem x.isIdentifier (List.mem_of_getLast? hlast)
  exact Bool.false_ne_true (hequals.symm.trans hword)

theorem unary?_name {x : Name} (hname : field .name = .scalar (.str x.text)) :
    unary? field = .ok none := by
  rw [unary?, hname, methodOperator?_name x (by decide)]
  rfl

/-- A method called by its name is in no special form. -/
theorem of_name {x : Name} (hreceiver : (field .receiver).isNull = false)
    (hname : field .name = .scalar (.str x.text)) : of field = .ok .plain := by
  have hbinary : binary? field = .ok none := by
    rw [binary?, hname, methodOperator?_name x (by decide)]
    rfl
  have hindexAssign : isIndexAssign field = .ok false := by
    have hne : x.text ≠ "[]=" := x.text_ne (by decide)
    simp [isIndexAssign, hname, Value.text?, hne, pure, Except.pure]
  have hattributeAssign : isAttributeAssign field = .ok false := by
    simp [isAttributeAssign, hname, Value.text?, isSetterName_name, pure, Except.pure]
  have hindex : isIndex field = false := by
    have hne : x.text ≠ "[]" := x.text_ne (by decide)
    simp [isIndex, hname, Value.text?, hne]
  simp [of, hreceiver, unary?_name hname, hbinary, hindexAssign, hattributeAssign, hindex, bind,
    Except.bind, pure, Except.pure]

end CallShape

/-! ## Trees -/

/-- The value that a name is in a tree. -/
def Name.value (x : Name) : Value := .scalar (.str x.text)

namespace Expr

/-- The tree `v` is the expression `e`, whatever its other fields hold. -/
inductive IsTree : Expr → Value → Prop
  | var {x : Name} {field : Field → Value} (name : field .name = x.value) :
      IsTree (.var x) (.node .localRead field)
  | integer {n : Int} {field : Field → Value} (value : field .value = .scalar (.int n)) :
      IsTree (.integer n) (.node .integer field)
  | unary {op : UnaryOperator} {e : Expr} {field : Field → Value}
      (method : op.1.isUnaryMethod = true) (name : field .name = .scalar (.str op.1.symbol))
      (receiver : IsTree e (field .receiver)) (arguments : field .arguments = .empty)
      (block : field .block = .null) (dot : field .safeNavigation = .scalar (.bool false)) :
      IsTree (.unary op e) (.node .call field)
  | wordNot {e : Expr} {field : Field → Value} (operand : IsTree e (field .expression)) :
      IsTree (.unary .wordNot e) (.node .logicalNot field)
  | binary {op : BinaryOperator} {l r : Expr} {field : Field → Value} {argument : Value}
      (method : op.1.isBinaryMethod = true) (name : field .name = .scalar (.str op.1.symbol))
      (receiver : IsTree l (field .receiver)) (arguments : field .arguments = .seq [argument])
      (operand : IsTree r argument) (block : field .block = .null)
      (dot : field .safeNavigation = .scalar (.bool false)) :
      IsTree (.binary op l r) (.node .call field)
  | conjunction {l r : Expr} {field : Field → Value}
      (keyword : field .keyword = .scalar (.bool false)) (left : IsTree l (field .left))
      (right : IsTree r (field .right)) :
      IsTree (.binary ⟨.conjunction, rfl⟩ l r) (.node .logicalAnd field)
  | wordAnd {l r : Expr} {field : Field → Value}
      (keyword : field .keyword = .scalar (.bool true)) (left : IsTree l (field .left))
      (right : IsTree r (field .right)) :
      IsTree (.binary ⟨.wordAnd, rfl⟩ l r) (.node .logicalAnd field)
  | disjunction {l r : Expr} {field : Field → Value}
      (keyword : field .keyword = .scalar (.bool false)) (left : IsTree l (field .left))
      (right : IsTree r (field .right)) :
      IsTree (.binary ⟨.disjunction, rfl⟩ l r) (.node .logicalOr field)
  | wordOr {l r : Expr} {field : Field → Value}
      (keyword : field .keyword = .scalar (.bool true)) (left : IsTree l (field .left))
      (right : IsTree r (field .right)) :
      IsTree (.binary ⟨.wordOr, rfl⟩ l r) (.node .logicalOr field)
  | inclusiveRange {l r : Expr} {field : Field → Value}
      (exclusive : field .exclusive = .scalar (.bool false)) (left : IsTree l (field .left))
      (right : IsTree r (field .right)) :
      IsTree (.binary ⟨.inclusiveRange, rfl⟩ l r) (.node .range field)
  | exclusiveRange {l r : Expr} {field : Field → Value}
      (exclusive : field .exclusive = .scalar (.bool true)) (left : IsTree l (field .left))
      (right : IsTree r (field .right)) :
      IsTree (.binary ⟨.exclusiveRange, rfl⟩ l r) (.node .range field)
  | assign {x : Name} {e : Expr} {field : Field → Value} (name : field .name = x.value)
      (value : IsTree e (field .value)) : IsTree (.assign x e) (.node .localWrite field)
  | send {e : Expr} {x : Name} {field : Field → Value} (receiver : IsTree e (field .receiver))
      (name : field .name = x.value) (arguments : field .arguments = .empty)
      (block : field .block = .null) (dot : field .safeNavigation = .scalar (.bool false)) :
      IsTree (.send e x) (.node .call field)

/-- The node of a kind of operator with two operands. -/
def operatorNode (kind : Kind) (given : List (Field × Value)) (l r : Value) : Value :=
  .ofFields kind ((.left, l) :: (.right, r) :: given)

/-- A tree for an expression. -/
def tree : Expr → Value
  | .var x => .ofFields .localRead [(.name, x.value)]
  | .integer n => .ofFields .integer [(.value, .scalar (.int n))]
  | .unary op e =>
    match op.1 with
    | .wordNot => .ofFields .logicalNot [(.expression, e.tree)]
    | op => .ofFields .call [(.receiver, e.tree), (.name, .scalar (.str op.symbol))]
  | .binary op l r =>
    match op.1 with
    | .conjunction => operatorNode .logicalAnd [] l.tree r.tree
    | .wordAnd => operatorNode .logicalAnd [(.keyword, .scalar (.bool true))] l.tree r.tree
    | .disjunction => operatorNode .logicalOr [] l.tree r.tree
    | .wordOr => operatorNode .logicalOr [(.keyword, .scalar (.bool true))] l.tree r.tree
    | .inclusiveRange => operatorNode .range [] l.tree r.tree
    | .exclusiveRange => operatorNode .range [(.exclusive, .scalar (.bool true))] l.tree r.tree
    | op =>
      .ofFields .call
        [(.receiver, l.tree), (.name, .scalar (.str op.symbol)), (.arguments, .seq [r.tree])]
  | .assign x e => .ofFields .localWrite [(.name, x.value), (.value, e.tree)]
  | .send e x => .ofFields .call [(.receiver, e.tree), (.name, x.value)]

theorem isTree_tree (e : Expr) : IsTree e e.tree := by
  induction e with
  | var x => exact .var rfl
  | integer n => exact .integer rfl
  | unary op e ih =>
    obtain ⟨op, hop⟩ := op
    cases op <;> first | exact .wordNot ih | exact .unary rfl rfl ih rfl rfl rfl | exact nomatch hop
  | binary op l r ihl ihr =>
    obtain ⟨op, hop⟩ := op
    cases op with
    | conjunction => exact .conjunction rfl ihl ihr
    | wordAnd => exact .wordAnd rfl ihl ihr
    | disjunction => exact .disjunction rfl ihl ihr
    | wordOr => exact .wordOr rfl ihl ihr
    | inclusiveRange => exact .inclusiveRange rfl ihl ihr
    | exclusiveRange => exact .exclusiveRange rfl ihl ihr
    | _ => first | exact .binary rfl rfl ihl rfl ihr rfl rfl | exact nomatch hop
  | assign x e ih => exact .assign rfl ih
  | send e x ih => exact .send ih rfl rfl rfl rfl

namespace IsTree

/-- A tree of an expression is a node of one of a few kinds. -/
theorem isNode {e : Expr} {v : Value} (h : IsTree e v) :
    ∃ kind field, v = .node kind field ∧ kind.isTrivia = false ∧ kind ≠ .statements := by
  cases h <;> exact ⟨_, _, rfl, by decide⟩

theorem isNull {e : Expr} {v : Value} (h : IsTree e v) : v.isNull = false := by
  cases h <;> rfl

theorem not_spread {e : Expr} {v : Value} (h : IsTree e v) :
    v.inGroup Kind.isSpread = false := by
  cases h <;> rfl

theorem isBare {e : Expr} {field : Field → Value} (h : IsTree e (field .receiver))
    (hblock : field .block = .null) (hdot : field .safeNavigation = .scalar (.bool false)) :
    CallShape.IsBare field :=
  ⟨h.isNull, hblock, hdot⟩

/-- The tree of an expression has the operator of the expression. -/
theorem operator? {e : Expr} {v : Value} (h : IsTree e v) : v.operator? = .ok e.operator? := by
  cases h with
  | unary method name receiver arguments block dot =>
    rw [Value.operator?, CallShape.of_unary (receiver.isBare block dot) method name arguments]
    rfl
  | binary method name receiver arguments operand block dot =>
    rw [Value.operator?, CallShape.of_binary (receiver.isBare block dot) method name arguments
      operand.not_spread]
    rfl
  | send receiver name arguments block dot =>
    rw [Value.operator?, CallShape.of_name receiver.isNull name]
    rfl
  | integer value => simp [Value.operator?, value, Value.signOperator?, Literal.isNumber,
      Scalar.whole?, Literal.isNegative, Expr.operator?]
  | conjunction keyword left right => simp [Value.operator?, keyword, Value.isTrue, Scalar.isTrue,
      Expr.operator?]
  | wordAnd keyword left right => simp [Value.operator?, keyword, Value.isTrue, Scalar.isTrue,
      Expr.operator?]
  | disjunction keyword left right => simp [Value.operator?, keyword, Value.isTrue, Scalar.isTrue,
      Expr.operator?]
  | wordOr keyword left right => simp [Value.operator?, keyword, Value.isTrue, Scalar.isTrue,
      Expr.operator?]
  | inclusiveRange exclusive left right => simp [Value.operator?, left.isNull, right.isNull,
      exclusive, Value.isTrue, Scalar.isTrue, Expr.operator?]
  | exclusiveRange exclusive left right => simp [Value.operator?, left.isNull, right.isNull,
      exclusive, Value.isTrue, Scalar.isTrue, Expr.operator?]
  | var name => rfl
  | wordNot operand => rfl
  | assign name value => rfl

theorem isNumber {e : Expr} {v : Value} (h : IsTree e v) : v.isNumber = e.isInteger := by
  cases h <;> rfl

/-- A tree binds to a sign before it if its expression does. -/
theorem bindsToSign {e : Expr} {v : Value} (h : IsTree e v) : v.bindsToSign = e.bindsToSign := by
  cases h with
  | unary method name receiver arguments block dot =>
    rw [Value.bindsToSign, CallShape.of_unary (receiver.isBare block dot) method name arguments]
    rfl
  | @binary op l r field argument method name receiver arguments operand block dot =>
    rw [Value.bindsToSign, CallShape.of_binary (receiver.isBare block dot) method name arguments
      operand.not_spread, Expr.bindsToSign, ← receiver.isNumber]
    obtain ⟨op, hop⟩ := op
    cases op <;> rfl
  | send receiver name arguments block dot =>
    rw [Value.bindsToSign, CallShape.of_name receiver.isNull name]
    rfl
  | _ => rfl

end IsTree
end Expr

/-! ## The texts of phrases -/

namespace Lexeme

theorem text_grouped (needed : Bool) (ls : List Lexeme) :
    text (grouped needed ls) = (text ls).grouped needed := by
  cases needed with
  | false => rfl
  | true =>
    simp only [grouped, if_pos, List.cons_append, text_cons, text_append, text_nil, List.append_nil]
    rfl

theorem isWord_of_mem_natText {n : Nat} {c : Char} (h : c ∈ Decimal.natText n) :
    CharClass.isWord c = true := by
  refine @Decimal.forall_isDigit (fun c => CharClass.isWord c = true) ?_ c
    (Decimal.isDigit_of_mem_natText h)
  decide

/-- What an expression begins with is spelled by the characters of words and some others. -/
theorem IsFirst.exists_glyphs {l : Lexeme} (hl : l.IsFirst) :
    ∃ cs, l.glyphs = Text.ofChars cs ∧ cs ≠ [] ∧
      ∀ c ∈ cs, CharClass.isWord c = true ∨ c ∈ ['(', '-', '+', '!', '~'] := by
  have check : ∀ m ∈ firstMarks, m.chars ≠ [] ∧ ∀ c ∈ m.chars, c ∈ ['(', '-', '+', '!', '~'] := by
    decide
  cases hl with
  | @word text h =>
    exact ⟨_, rfl, Literal.ne_nil_of_isIdentifier h,
      fun c hc => .inl (Literal.isWord_of_mem h hc)⟩
  | number n =>
    exact ⟨_, rfl, Nat.toDigits_ne_nil, fun c hc => .inl (isWord_of_mem_natText hc)⟩
  | @mark m h => exact ⟨_, rfl, (check m h).1, fun c hc => .inr ((check m h).2 c hc)⟩

/-- What an expression ends with is spelled by the characters of words and a parenthesis. -/
theorem IsLast.exists_glyphs {l : Lexeme} (hl : l.IsLast) :
    ∃ cs, l.glyphs = Text.ofChars cs ∧ cs ≠ [] ∧
      ∀ c ∈ cs, CharClass.isWord c = true ∨ c = ')' := by
  cases hl with
  | @word text h =>
    exact ⟨_, rfl, Literal.ne_nil_of_isIdentifier h,
      fun c hc => .inl (Literal.isWord_of_mem h hc)⟩
  | number n =>
    exact ⟨_, rfl, Nat.toDigits_ne_nil, fun c hc => .inl (isWord_of_mem_natText hc)⟩
  | closing => exact ⟨[')'], rfl, by simp, by simp⟩

namespace IsPhrase

variable {ls : List Lexeme}

/-- A phrase begins with a character, which is no quote. -/
theorem exists_head (h : IsPhrase ls) :
    ∃ c, (text ls).head? = some (.char c) ∧ Text.isQuote c = false := by
  obtain ⟨l, hl, hfirst⟩ := h.first
  obtain ⟨rest, rfl⟩ := List.head?_eq_some_iff.mp hl
  obtain ⟨cs, hglyphs, hne, hcs⟩ := hfirst.exists_glyphs
  obtain ⟨c, cs, rfl⟩ := List.exists_cons_of_ne_nil hne
  refine ⟨c, by rw [text_cons, hglyphs]; rfl, ?_⟩
  have hquotes : ∀ d ∈ ['"', '\''], CharClass.isWord d = false ∧ d ∉ ['(', '-', '+', '!', '~'] := by
    decide
  rw [Bool.eq_false_iff]
  intro hquote
  have hplain := hquotes c (by simpa [Text.isQuote] using hquote)
  obtain hword | hmark := hcs c (by simp)
  · exact Bool.false_ne_true (hplain.1.symm.trans hword)
  · exact hplain.2 hmark

theorem text_isEmpty (h : IsPhrase ls) : (text ls).isEmpty = false := by
  obtain ⟨c, hc, -⟩ := h.exists_head
  obtain ⟨rest, hrest⟩ := List.head?_eq_some_iff.mp hc
  rw [hrest]
  rfl

/-- After a keyword, a phrase has a blank before it. -/
theorem keywordGap (h : IsPhrase ls) : (text ls).keywordGap = glyphs .blank := by
  obtain ⟨c, hc, hquote⟩ := h.exists_head
  have hstart : (text ls).startsWith Text.isQuote = false := by
    rw [Text.startsWith, hc]
    exact hquote
  rw [Text.keywordGap, h.text_isEmpty, hstart]
  rfl

/-- A phrase does not end in a character that would take an operator after it. -/
theorem endsWith_isNameMark (h : IsPhrase ls) : (text ls).endsWith Text.isNameMark = false := by
  obtain ⟨l, hl, hlast⟩ := h.last
  obtain ⟨front, rfl⟩ := List.getLast?_eq_some_iff.mp hl
  obtain ⟨cs, hglyphs, hne, hcs⟩ := hlast.exists_glyphs
  have hmarks : ∀ d ∈ ['?', '!'], CharClass.isWord d = false ∧ d ≠ ')' := by decide
  rw [Text.endsWith, text_append, text_cons, text_nil, List.append_nil, hglyphs,
    List.getLast?_append_of_ne_nil _ (by simpa [Text.ofChars] using hne), Text.ofChars,
    List.getLast?_map, List.getLast?_eq_some_getLast hne, Option.map_some, Bool.eq_false_iff]
  intro hmark
  have hplain := hmarks _ (by simpa [Text.isNameMark] using hmark)
  obtain hword | hclosing := hcs _ (List.getLast_mem hne)
  · exact Bool.false_ne_true (hplain.1.symm.trans hword)
  · exact hplain.2 hclosing

end IsPhrase
end Lexeme

/-! ## Writing -/

namespace Operator

theorem isWord_of_isBinaryMethod {op : Operator} (h : op.isBinaryMethod = true) :
    op.isWord = false := by
  cases op <;> first | rfl | exact nomatch h

theorem text_between {op : Operator} (hop : op.isBinary = true) (hword : op.isWord = false) :
    Lexeme.text op.between = Text.lit op.symbol := by
  have check : ∀ op ∈ all, op.isBinary = true → op.isWord = false →
      Lexeme.text op.between = Text.lit op.symbol := by decide
  exact check op (mem_all op) hop hword

theorem text_between_of_isWord {op : Operator} (hword : op.isWord = true) :
    Lexeme.text op.between = Text.lit (" " ++ op.symbol ++ " ") := by
  have check : ∀ op ∈ all, op.isWord = true →
      Lexeme.text op.between = Text.lit (" " ++ op.symbol ++ " ") := by decide
  exact check op (mem_all op) hword

end Operator

namespace Expr

open Lexeme (text grouped)
open Writer (Yields Writes Needs yields_pure yields_lift writes_pure needs_of needs_after
  needs_after_ok)

/-- The tree is written as the expression. -/
def IsWritten (s : Setting) (e : Expr) (v : Value) : Prop :=
  Writes s (v.rendition.write .expression) (text e.lexemes)

namespace IsTree

variable {e : Expr} {v : Value} {s : Setting}

/-- An operand is written with the parentheses that the expression needs. -/
theorem yields_operand (h : IsTree e v) (hw : IsWritten s e v) (parent : Operator) (side : Side) :
    Yields s (v.rendition.operand parent side)
      (· = text (grouped (e.needsParens parent side) e.lexemes)) := by
  refine hw.built.bind ?_
  rintro _ rfl
  refine (yields_lift (P := (· = e.operator?)) ?_ rfl).bind ?_
  · rw [Value.rendition_value]
    exact h.operator?
  · rintro _ rfl
    exact yields_pure (Lexeme.text_grouped _ _).symm

/-- Before a dot every operator needs parentheses. -/
theorem yields_memberOperand (h : IsTree e v) (hw : IsWritten s e v) :
    Yields s v.rendition.memberOperand (· = text (grouped e.operator?.isSome e.lexemes)) := by
  have hrank : ∀ op ∈ Operator.all, op.needsParensAt Operator.memberRank = true := by decide
  have hall : (e.operator?.any fun child => child.needsParensAt Operator.memberRank) =
      e.operator?.isSome := by
    cases e.operator? with
    | none => rfl
    | some op => exact hrank op (Operator.mem_all op)
  refine hw.built.bind ?_
  rintro _ rfl
  refine (yields_lift (P := (· = e.operator?)) ?_ rfl).bind ?_
  · rw [Value.rendition_value]
    exact h.operator?
  · rintro _ rfl
    exact yields_pure (by rw [hall, Lexeme.text_grouped])

variable {l r : Expr} {x : Name} {kind : Kind} {field : Field → Value}

theorem writes_unaryCall {op : Operator} (hop : op.isUnaryMethod = true)
    (h : IsTree e (field .receiver)) (hw : IsWritten s e (field .receiver)) :
    Writes s (Rules.unaryCall (fun f => (field f).rendition) op)
      (text (unaryLexemes op e.bindsToSign (grouped (e.needsParens op .right) e.lexemes))) := by
  have hphrase := e.isPhrase_lexemes.grouped (e.needsParens op .right)
  refine (h.yields_operand hw op .right).bind ?_
  rintro operand rfl
  generalize grouped (e.needsParens op .right) e.lexemes = inner at hphrase ⊢
  have hsign (sign : String) (glued : Bool) : Writes s
      (pure (Draft.lit sign ++ Draft.of ((text inner).grouped glued)))
      (Text.lit sign ++ text (grouped glued inner)) := by
    rw [Lexeme.text_grouped]
    exact writes_pure (Draft.build_append (Draft.build_lit _) (Draft.build_of _))
  have hbinds : (field .receiver).rendition.value.bindsToSign = e.bindsToSign := by
    rw [Value.rendition_value, h.bindsToSign]
  cases op with
  | bang =>
    rw [unaryLexemes, List.cons_append, Lexeme.text_cons, Lexeme.text_append, ← List.append_assoc]
    simp only [hphrase.text_isEmpty, Bool.false_eq_true, if_false]
    refine writes_pure (Draft.build_append (Draft.build_append (Draft.build_lit _) ?_)
      (Draft.build_of _))
    split
    · exact Draft.build_lit _
    · exact Draft.build_nil
  | complement => exact writes_pure (Draft.build_append (Draft.build_lit _) (Draft.build_of _))
  | positive => exact hbinds ▸ hsign "+" _
  | negative => exact hbinds ▸ hsign "-" _
  | _ => exact absurd hop Bool.false_ne_true

theorem isKind_symbol (h : IsTree e v) : v.rendition.value.isKind .symbol = false := by
  rw [Value.rendition_value]
  cases h <;> rfl

theorem joinInfix_eq {op : Operator} (hop : op.isBinary = true) (hword : op.isWord = false)
    {ls rs : List Lexeme} (h : Lexeme.IsPhrase ls) :
    Text.joinInfix false (text ls) op.symbol (text rs) = text (ls ++ op.between ++ rs) := by
  have hfuses : Text.fuses false (text ls) op.symbol = false := by
    rw [Text.fuses, h.endsWith_isNameMark]
    rfl
  rw [Text.joinInfix, hfuses, Lexeme.text_append, Lexeme.text_append,
    Operator.text_between hop hword, if_neg Bool.false_ne_true, List.append_nil]

theorem writes_binaryCall {op : BinaryOperator} {argument : Value}
    (hop : op.1.isBinaryMethod = true) (hl : IsTree l (field .receiver))
    (hwl : IsWritten s l (field .receiver))
    (hr : IsTree r argument) (hwr : IsWritten s r argument) :
    Writes s (Rules.binaryCall (fun f => (field f).rendition) op argument.rendition.toRendition)
      (text (Expr.binary op l r).lexemes) := by
  have hword := Operator.isWord_of_isBinaryMethod hop
  refine (hl.yields_operand hwl op .left).bind ?_
  rintro _ rfl
  refine (hr.yields_operand hwr op .right).bind ?_
  rintro _ rfl
  rw [hl.isKind_symbol, joinInfix_eq op.2 hword (l.isPhrase_lexemes.grouped _)]
  exact writes_pure (Draft.build_of _)

theorem write_logicalAnd {word : Bool} (h : field .keyword = .scalar (.bool word)) :
    (Value.node .logicalAnd field).rendition.write .expression =
      Rules.logical (fun f => (field f).rendition) (if word then .wordAnd else .conjunction)
        word := by
  change (if (field .keyword).rendition.value.isTrue then _ else _) = _
  rw [Value.rendition_value, h]
  cases word <;> rfl

theorem write_logicalOr {word : Bool} (h : field .keyword = .scalar (.bool word)) :
    (Value.node .logicalOr field).rendition.write .expression =
      Rules.logical (fun f => (field f).rendition) (if word then .wordOr else .disjunction)
        word := by
  change (if (field .keyword).rendition.value.isTrue then _ else _) = _
  rw [Value.rendition_value, h]
  cases word <;> rfl

theorem writes_logical (op : BinaryOperator) (hl : IsTree l (field .left))
    (hwl : IsWritten s l (field .left)) (hr : IsTree r (field .right))
    (hwr : IsWritten s r (field .right)) :
    Writes s (Rules.logical (fun f => (field f).rendition) op op.1.isWord)
      (text (Expr.binary op l r).lexemes) := by
  refine (hl.yields_operand hwl op .left).bind ?_
  rintro _ rfl
  refine (hr.yields_operand hwr op .right).bind ?_
  rintro _ rfl
  split
  · rename_i hword
    rw [lexemes, Lexeme.text_append, Lexeme.text_append, Operator.text_between_of_isWord hword]
    exact writes_pure (Draft.build_append (Draft.build_append (Draft.build_of _)
      (Draft.build_lit _)) (Draft.build_of _))
  · rename_i hword
    rw [hl.isKind_symbol, joinInfix_eq op.2 (Bool.eq_false_iff.mpr hword)
      (l.isPhrase_lexemes.grouped _)]
    exact writes_pure (Draft.build_of _)

theorem writes_negation (h : IsTree e (field .expression))
    (hw : IsWritten s e (field .expression)) :
    Writes s (Rules.negation fun f => (field f).rendition)
      (text (Expr.unary .wordNot e).lexemes) := by
  refine (h.yields_operand hw .wordNot .right).bind ?_
  rintro _ rfl
  refine writes_pure (Draft.build_append (Draft.build_lit _) ?_)
  rw [Draft.afterKeyword, (e.isPhrase_lexemes.grouped _).keywordGap]
  exact Draft.build_append (Draft.build_of _) (Draft.build_of _)

theorem writes_range {op : BinaryOperator}
    (hop : op.1 = if (field .exclusive).isTrue then .exclusiveRange else .inclusiveRange)
    (hl : IsTree l (field .left)) (hwl : IsWritten s l (field .left))
    (hr : IsTree r (field .right)) (hwr : IsWritten s r (field .right)) :
    Writes s (Rules.range fun f => (field f).rendition) (text (Expr.binary op l r).lexemes) := by
  have hword : op.1.isWord = false := by
    rw [hop]
    split <;> rfl
  rw [lexemes, Lexeme.text_append, Lexeme.text_append, Operator.text_between op.2 hword]
  unfold Rules.range
  simp only [Value.rendition_value, ← hop, FieldRendition.ifPresent, hl.isNull, hr.isNull,
    Bool.false_eq_true, if_false]
  refine (hl.yields_operand hwl op .left).bind ?_
  rintro _ rfl
  refine (hr.yields_operand hwr op .right).bind ?_
  rintro _ rfl
  exact writes_pure (Draft.build_append (Draft.build_append (Draft.build_of _)
    (Draft.build_lit _)) (Draft.build_of _))

/-- The value of an assignment has a blank before it if its first mark would be lengthened. -/
theorem writes_assignedValue (h : IsTree e v) (hw : IsWritten s e v) (x : Name) :
    ∃ t, Writes s v.rendition.assignedValue t ∧
      text (Expr.assign x e).lexemes = Text.lit x.text ++ t := by
  refine ⟨(text (grouped (e.needsParens .assign .right) e.lexemes)).equals ++
    text (grouped (e.needsParens .assign .right) e.lexemes), ?_, ?_⟩
  · refine (h.yields_operand hw .assign .right).bind ?_
    rintro _ rfl
    exact writes_pure (Draft.build_append (Draft.build_of _) (Draft.build_of _))
  · rw [lexemes, assignLexemes, Text.equals]
    split <;> rfl

theorem writes_localAssignment (hname : field .name = x.value) (h : IsTree e (field .value))
    (hw : IsWritten s e (field .value)) :
    Writes s (Rules.localAssignment fun f => (field f).rendition)
      (text (Expr.assign x e).lexemes) := by
  obtain ⟨t, ht, htext⟩ := h.writes_assignedValue hw x
  have hvalue : (field .name).rendition.value = .scalar (.str x.text) := by
    rw [Value.rendition_value, hname]
    rfl
  unfold Rules.localAssignment Rules.assignment
  rw [hvalue, htext]
  refine (Writer.yields_declare (Value.checkKey_str _)).bind fun _ _ => ?_
  exact Writes.after (Draft.build_word_str _) ht

/-- A call by name without arguments, and what is written for the block attached to it. -/
theorem writes_plainCall {t : Text} (h : IsTree e (field .receiver))
    (hw : IsWritten s e (field .receiver)) (hname : field .name = x.value)
    (harguments : field .arguments = .empty) (hdot : field .safeNavigation = .scalar (.bool false))
    (hblock : (field .block).isKind .blockArgument = false)
    (hattached : Writes s (Rules.attachedBlock (field .block).rendition) t) :
    Writes s (Rules.plainCall fun f => (field f).rendition)
      (text (Expr.send e x).lexemes ++ t) := by
  have hlist : Writes s (Rules.argumentList fun f => (field f).rendition) [] := by
    simp only [Rules.argumentList, Rules.blockArgument?, Value.rendition_value, hblock, harguments,
      h.isNull]
    exact writes_pure Draft.build_nil
  have hreceiver : Writes s ((field .receiver).rendition.ifPresent do
      return Draft.of (← (field .receiver).rendition.memberOperand) ++
        Rules.dot fun f => (field f).rendition)
      (text (grouped e.operator?.isSome e.lexemes) ++ Text.lit ".") := by
    simp only [FieldRendition.ifPresent, Rules.dot, Value.rendition_value, h.isNull, hdot]
    refine (h.yields_memberOperand hw).bind ?_
    rintro _ rfl
    exact writes_pure (Draft.build_append (Draft.build_of _) (Draft.build_lit _))
  have hword : (Draft.word (field .name).rendition.value).build = .ok (Text.lit x.text) := by
    rw [Value.rendition_value, hname]
    exact Draft.build_word_str _
  have htext : text (Expr.send e x).lexemes =
      text (grouped e.operator?.isSome e.lexemes) ++ Text.lit "." ++ Text.lit x.text ++ [] := by
    rw [lexemes, Lexeme.text_append, List.append_nil, List.append_assoc]
    simp only [Lexeme.text_cons, Lexeme.text_nil, List.append_nil]
    rfl
  rw [htext]
  refine hreceiver.bind fun _ hr => hlist.bind fun _ hl => hattached.bind fun _ hb => ?_
  exact writes_pure (Draft.build_append (Draft.build_append (Draft.build_append hr hword) hl) hb)

theorem text_integer (n : Int) :
    text (Expr.integer n).lexemes = Text.lit (Scalar.int n).display := by
  rw [Scalar.display, Text.lit, String.toList_ofList]
  cases n with
  | ofNat n =>
    have hsign : ¬Int.ofNat n < 0 := by simp
    rw [lexemes, if_neg hsign, List.nil_append, Lexeme.text_cons, Lexeme.text_nil, List.append_nil]
    rfl
  | negSucc n =>
    rw [lexemes, if_pos (Int.negSucc_lt_zero n), List.singleton_append, Lexeme.text_cons,
      Lexeme.text_cons, Lexeme.text_nil, List.append_nil]
    rfl

/-- The renditions of the fields of a node are renditions of their values. -/
theorem of_rendition (field : Field → Value) :
    CallShape.of (fun f => (field f).rendition.value) = CallShape.of field := by
  simp only [Value.rendition_value]

/-- **The tree of an expression is written as the expression**, whatever the setting, if all
literals in it can be written. -/
theorem isWritten (s : Setting) (h : IsTree e v) (hshort : e.hasLong = false) :
    IsWritten s e v := by
  induction h with
  | @var x field name =>
    change Writes s (pure (Draft.word (field .name).rendition.value)) _
    rw [Value.rendition_value, name, lexemes, Lexeme.text_cons, Lexeme.text_nil, List.append_nil]
    exact writes_pure (Draft.build_word_str _)
  | @integer n field value =>
    have hshown : Value.shown (.scalar (.int n)) = .ok (Scalar.int n).display := by
      rw [Value.shown_int, if_neg (Bool.not_eq_true _ ▸ hshort)]
    change Writes s (liftM (Rules.integer (field .value).rendition.value)) _
    rw [Value.rendition_value, value, text_integer, Rules.integer, hshown]
    exact yields_lift rfl (Draft.build_lit _)
  | @unary op e field method name receiver arguments block dot ih =>
    refine (yields_lift (P := (· = .unary op.1)) ?_ rfl).bind ?_
    · rw [of_rendition]
      exact CallShape.of_unary (receiver.isBare block dot) method name arguments
    · rintro _ rfl
      exact writes_unaryCall method receiver (ih hshort)
  | wordNot operand ih => exact writes_negation operand (ih hshort)
  | @binary op l r field argument method name receiver arguments operand block dot ihl ihr =>
    obtain ⟨hshortl, hshortr⟩ := hasLong_binary.mp hshort
    refine (yields_lift (P := (· = .binary op.1)) ?_ rfl).bind ?_
    · rw [of_rendition]
      exact CallShape.of_binary (receiver.isBare block dot) method name arguments
        operand.not_spread
    · rintro _ rfl
      simp only [arguments, Value.rendition, Value.itemRenditions]
      exact writes_binaryCall method receiver (ihl hshortl) operand (ihr hshortr)
  | conjunction keyword left right ihl ihr =>
    obtain ⟨hshortl, hshortr⟩ := hasLong_binary.mp hshort
    rw [IsWritten, write_logicalAnd keyword]
    exact writes_logical ⟨.conjunction, rfl⟩ left (ihl hshortl) right (ihr hshortr)
  | wordAnd keyword left right ihl ihr =>
    obtain ⟨hshortl, hshortr⟩ := hasLong_binary.mp hshort
    rw [IsWritten, write_logicalAnd keyword]
    exact writes_logical ⟨.wordAnd, rfl⟩ left (ihl hshortl) right (ihr hshortr)
  | disjunction keyword left right ihl ihr =>
    obtain ⟨hshortl, hshortr⟩ := hasLong_binary.mp hshort
    rw [IsWritten, write_logicalOr keyword]
    exact writes_logical ⟨.disjunction, rfl⟩ left (ihl hshortl) right (ihr hshortr)
  | wordOr keyword left right ihl ihr =>
    obtain ⟨hshortl, hshortr⟩ := hasLong_binary.mp hshort
    rw [IsWritten, write_logicalOr keyword]
    exact writes_logical ⟨.wordOr, rfl⟩ left (ihl hshortl) right (ihr hshortr)
  | inclusiveRange exclusive left right ihl ihr =>
    obtain ⟨hshortl, hshortr⟩ := hasLong_binary.mp hshort
    exact writes_range (by rw [exclusive]; rfl) left (ihl hshortl) right (ihr hshortr)
  | exclusiveRange exclusive left right ihl ihr =>
    obtain ⟨hshortl, hshortr⟩ := hasLong_binary.mp hshort
    exact writes_range (by rw [exclusive]; rfl) left (ihl hshortl) right (ihr hshortr)
  | assign name value ih => exact writes_localAssignment name value (ih hshort)
  | @send e x field receiver name arguments block dot ih =>
    refine (yields_lift (P := (· = .plain)) ?_ rfl).bind ?_
    · rw [of_rendition]
      exact CallShape.of_name receiver.isNull name
    · rintro _ rfl
      have hattached : Writes s (Rules.attachedBlock (field .block).rendition) [] := by
        rw [block]
        exact writes_pure Draft.build_nil
      have hplain :=
        writes_plainCall receiver (ih hshort) name arguments dot (by rw [block]; rfl) hattached
      rwa [List.append_nil] at hplain

/-! ## Literals that cannot be written -/

theorem needs_operand {p : Prop} (h : Needs (v.rendition.write .expression) p) (parent : Operator)
    (side : Side) : Needs (v.rendition.operand parent side) p :=
  Needs.bind (Needs.bind h)

theorem needs_binaryCall {p q : Prop} {argument : Value} {op : Operator}
    (hl : Needs ((field .receiver).rendition.write .expression) p)
    (hr : Needs (argument.rendition.write .expression) q) :
    Needs (Rules.binaryCall (fun f => (field f).rendition) op argument.rendition.toRendition)
      (p ∧ q) :=
  Needs.and (needs_operand hl op .left).bind
    (needs_after fun _ => (needs_operand hr op .right).bind)

theorem needs_logical {p q : Prop} {op : Operator} {asWord : Bool}
    (hl : Needs ((field .left).rendition.write .expression) p)
    (hr : Needs ((field .right).rendition.write .expression) q) :
    Needs (Rules.logical (fun f => (field f).rendition) op asWord) (p ∧ q) :=
  Needs.and (needs_operand hl op .left).bind
    (needs_after fun _ => (needs_operand hr op .right).bind)

theorem needs_range {p q : Prop} (hleft : (field .left).isNull = false)
    (hright : (field .right).isNull = false)
    (hl : Needs ((field .left).rendition.write .expression) p)
    (hr : Needs ((field .right).rendition.write .expression) q) :
    Needs (Rules.range fun f => (field f).rendition) (p ∧ q) := by
  unfold Rules.range
  simp only [Value.rendition_value, FieldRendition.ifPresent, hleft, hright, Bool.false_eq_true,
    if_false]
  exact Needs.and (needs_operand hl _ .left).bind
    (needs_after fun _ => (needs_operand hr _ .right).bind)

/-- **The tree of an expression is written only if all literals in it can be.** -/
theorem needs_short (h : IsTree e v) :
    Needs (v.rendition.write .expression) (e.hasLong = false) := by
  induction h with
  | var name => exact needs_of rfl
  | @integer n field value =>
    change Needs (liftM (Rules.integer (field .value).rendition.value)) _
    rw [Value.rendition_value, value]
    exact Writer.needs_integer
  | @unary op e field method name receiver arguments block dot ih =>
    refine needs_after_ok (a := .unary op.1) ?_ (needs_operand ih _ _).bind
    rw [of_rendition]
    exact CallShape.of_unary (receiver.isBare block dot) method name arguments
  | wordNot operand ih => exact (needs_operand ih _ _).bind
  | @binary op l r field argument method name receiver arguments operand block dot ihl ihr =>
    rw [hasLong_binary]
    refine needs_after_ok (a := .binary op.1) ?_ ?_
    · rw [of_rendition]
      exact CallShape.of_binary (receiver.isBare block dot) method name arguments
        operand.not_spread
    · simp only [arguments, Value.rendition, Value.itemRenditions]
      exact needs_binaryCall ihl ihr
  | conjunction keyword left right ihl ihr =>
    rw [hasLong_binary, write_logicalAnd keyword]
    exact needs_logical ihl ihr
  | wordAnd keyword left right ihl ihr =>
    rw [hasLong_binary, write_logicalAnd keyword]
    exact needs_logical ihl ihr
  | disjunction keyword left right ihl ihr =>
    rw [hasLong_binary, write_logicalOr keyword]
    exact needs_logical ihl ihr
  | wordOr keyword left right ihl ihr =>
    rw [hasLong_binary, write_logicalOr keyword]
    exact needs_logical ihl ihr
  | inclusiveRange exclusive left right ihl ihr =>
    rw [hasLong_binary]
    exact needs_range left.isNull right.isNull ihl ihr
  | exclusiveRange exclusive left right ihl ihr =>
    rw [hasLong_binary]
    exact needs_range left.isNull right.isNull ihl ihr
  | assign name value ih =>
    exact needs_after fun _ => ((needs_operand ih .assign .right).bind).bind
  | @send e x field receiver name arguments block dot ih =>
    refine needs_after_ok (a := .plain) ?_ ?_
    · rw [of_rendition]
      exact CallShape.of_name receiver.isNull name
    · refine Needs.bind ?_
      simp only [FieldRendition.ifPresent, Value.rendition_value, receiver.isNull,
        Bool.false_eq_true, if_false]
      exact (Needs.bind (Needs.bind ih)).bind

/-! ## Files of one expression -/

/-- No expression begins with a hash literal. -/
theorem startsWithBrace (h : IsTree e v) : v.startsWithBrace = .ok false := by
  induction h with
  | unary method name receiver arguments block dot ih =>
    rw [Value.startsWithBrace, receiver.isNull, if_neg Bool.false_ne_true,
      CallShape.unary?_unary (receiver.isBare block dot) method name arguments]
  | binary method name receiver arguments operand block dot ihl ihr =>
    rw [Value.startsWithBrace, receiver.isNull, if_neg Bool.false_ne_true,
      CallShape.unary?_binary method name]
    exact ihl
  | send receiver name arguments block dot ih =>
    rw [Value.startsWithBrace, receiver.isNull, if_neg Bool.false_ne_true,
      CallShape.unary?_name name]
    exact ih
  | conjunction keyword left right ihl ihr => exact ihl
  | wordAnd keyword left right ihl ihr => exact ihl
  | disjunction keyword left right ihl ihr => exact ihl
  | wordOr keyword left right ihl ihr => exact ihl
  | inclusiveRange exclusive left right ihl ihr => exact ihl
  | exclusiveRange exclusive left right ihl ihr => exact ihl
  | _ => rfl

/-- As a statement, an expression is written like anywhere else. -/
theorem writes_statement (s : Setting) (h : IsTree e v) (hshort : e.hasLong = false) :
    Writes s (v.rendition.write .statement) (text e.lexemes) := by
  have htree := h
  cases h with
  | unary method name receiver arguments block dot =>
    exact Rules.writes_callStatement receiver.isNull
      (Rules.writes_plainStatement htree.startsWithBrace (htree.isWritten s hshort))
  | binary method name receiver arguments operand block dot =>
    exact Rules.writes_callStatement receiver.isNull
      (Rules.writes_plainStatement htree.startsWithBrace (htree.isWritten s hshort))
  | send receiver name arguments block dot =>
    exact Rules.writes_callStatement receiver.isNull
      (Rules.writes_plainStatement htree.startsWithBrace (htree.isWritten s hshort))
  | _ => exact Rules.writes_plainStatement htree.startsWithBrace (htree.isWritten s hshort)

theorem needs_statement (h : IsTree e v) :
    Needs (v.rendition.write .statement) (e.hasLong = false) := by
  have htree := h
  cases h with
  | unary method name receiver arguments block dot =>
    exact Rules.needs_callStatement receiver.isNull (Rules.needs_plainStatement htree.needs_short)
  | binary method name receiver arguments operand block dot =>
    exact Rules.needs_callStatement receiver.isNull (Rules.needs_plainStatement htree.needs_short)
  | send receiver name arguments block dot =>
    exact Rules.needs_callStatement receiver.isNull (Rules.needs_plainStatement htree.needs_short)
  | _ => exact Rules.needs_plainStatement htree.needs_short

theorem fileBody_eq (h : IsTree e v) : v.fileBody = v := by
  cases h <;> rfl

/-- **The text of an expression** that is a whole file. -/
theorem render_eq (h : IsTree e v) (hshort : e.hasLong = false) (o : Options) :
    render o v = .ok (String.ofList ((text e.lexemes).spell o)) := by
  refine TerseRuby.render_eq ?_
  have hstatement := h.writes_statement (Setting.ofOptions o) hshort
  rw [h.fileBody_eq]
  obtain ⟨kind, field, rfl, htrivia, hstatements⟩ := h.isNode
  have hwrites := (Sequence.IsBody.single hstatements).writes true
    (.cons ⟨htrivia, hstatement⟩ .nil)
  rwa [List.intercalate_singleton] at hwrites

/-- The text of an expression, wherever there is one: only an expression in which all literals can
be written is rendered. -/
theorem eq_of_render (h : IsTree e v) {o : Options} {t : String} (hrender : render o v = .ok t) :
    t = String.ofList ((text e.lexemes).spell o) := by
  have hshort : e.hasLong = false := by
    refine TerseRuby.needs_of_render ?_ hrender
    rw [h.fileBody_eq]
    have hstatement := h.needs_statement
    obtain ⟨kind, field, rfl, htrivia, hstatements⟩ := h.isNode
    exact Sequence.needs_single true hstatements htrivia hstatement
  exact Except.ok.inj (hrender.symm.trans (h.render_eq hshort o))

end IsTree
end Expr
end TerseRuby
