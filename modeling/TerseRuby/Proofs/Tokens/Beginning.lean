import TerseRuby.Proofs.Tokens.Parts

/-!
# How an expression begins

Whether an operator ends where it should depends on the first character of the operand after it, and
a statement must not begin with a brace.  The first character of an expression is that of its
leftmost part (`Value.leftmost`), which is found along the left edge of the tree: by way of the
receiver, the left operand, the namespace or the target, as long as no parentheses are put around
them.

The leftmost part begins with a name or a numeral, which are taken from the tree, or with a
character that depends on its kind only: a keyword, a quote, a bracket or a sign
(`Value.mayBegin`).  `Value.begins_leftmost` says that the text of the whole expression begins in
the same way.  It is never a blank, nor a character that makes a longer operator of the one before
it (`Value.begins_rendition`).
-/

set_option autoImplicit false

namespace TerseRuby

namespace Lexer

/-- The characters that an expression may begin with. -/
def isStart (c : Char) : Bool :=
  CharClass.isWord c || "@$\"':([\x7b-+!~".toList.contains c

/-- Those of them that are neither a digit nor the brace of a hash. -/
def isOrdinary (c : Char) : Bool := isStart c && c != '\x7b' && !CharClass.isDigit c

end Lexer

/-! ## The left edge -/

namespace Value

/-- Whether a value gets parentheses in a place that asks for them around applications of some
operators. -/
def isEnclosed (asks : Operator → Bool) (v : Value) : Bool :=
  match v.operator? with
  | .ok child => child.any asks
  | .error _ => false

/-- Whether an operand of an operator gets parentheses. -/
def isEnclosedUnder (parent : Operator) (side : Side) (v : Value) : Bool :=
  v.isEnclosed fun child => child.needsParens parent side

/-- Whether a value gets parentheses before a dot, an index or a scope, or after a star. -/
def isEnclosedAsMember (v : Value) : Bool :=
  v.isEnclosed fun child => child.needsParensAt Operator.memberRank

/-- The operator of a conjunction with the given fields. -/
def conjunctionOperator (field : Field → Value) : Operator :=
  if (field .keyword).isTrue then .wordAnd else .conjunction

/-- The operator of a disjunction with the given fields. -/
def disjunctionOperator (field : Field → Value) : Operator :=
  if (field .keyword).isTrue then .wordOr else .disjunction

/-- The operator of a range with the given fields. -/
def rangeOperator (field : Field → Value) : Operator :=
  if (field .exclusive).isTrue then .exclusiveRange else .inclusiveRange

/-- Whether a call of some form gets its receiver in parentheses; `none` if its text does not begin
with the receiver. -/
def enclosesReceiver? (receiver : Value) : CallShape → Option Bool
  | .unary _ => none
  | .binary op => some (receiver.isEnclosedUnder op .left)
  | _ => some receiver.isEnclosedAsMember

/-- The same for a call with the given fields. -/
def receiverEnclosed? (field : Field → Value) : Option Bool :=
  if (field .receiver).isNull then none
  else (CallShape.of field).toOption.bind (enclosesReceiver? (field .receiver))

/-- The field that the text of a node begins with, unless parentheses come first. -/
def leftField? (kind : Kind) (field : Field → Value) : Option Field :=
  match kind with
  | .call => if receiverEnclosed? field = some false then some .receiver else none
  | .logicalAnd =>
    if (field .left).isEnclosedUnder (conjunctionOperator field) .left then none else some .left
  | .logicalOr =>
    if (field .left).isEnclosedUnder (disjunctionOperator field) .left then none else some .left
  | .range =>
    if (field .left).isNull || (field .right).isNull ||
      (field .left).isEnclosedUnder (rangeOperator field) .left then none
    else some .left
  | .operatorWrite => some .target
  | .constantPath =>
    if (field .parent).isNull || (field .parent).isEnclosedAsMember then none else some .parent
  | _ => none

/-- The leftmost part of an expression. -/
def leftmost : Value → Value
  | .node kind field =>
    match leftField? kind field with
    | some f => leftmost (field f)
    | none => .node kind field
  | v => v

theorem leftmost_of_some {kind : Kind} {field : Field → Value} {f : Field}
    (h : leftField? kind field = some f) : (node kind field).leftmost = (field f).leftmost := by
  rw [leftmost, h]

theorem leftmost_of_none {kind : Kind} {field : Field → Value} (h : leftField? kind field = none) :
    (node kind field).leftmost = .node kind field := by
  rw [leftmost, h]

/-- The name or the numeral that the text of a leftmost part begins with. -/
def firstToken? : Value → Option (List Char)
  | .node kind field =>
    match kind with
    | .integer => some (field .value).display.toList
    | .float =>
      match field .value with
      | .scalar s => (Literal.float s).toOption
      | _ => none
    | .call => if (field .receiver).isNull then (field .name).text?.map String.toList else none
    | .localRead | .instanceRead | .globalRead | .constantRead | .localWrite | .instanceWrite
    | .globalWrite | .constantWrite => (field .name).text?.map String.toList
    | _ => none
  | _ => none

/-- Whether the text of a leftmost part may begin with a character. -/
def mayBegin (v : Value) (c : Char) : Bool :=
  Lexer.isStart c && ((c == '\x7b') == v.isKind .hash) &&
    match v.firstToken? with
    | some token => token.head? == some c
    | none => !CharClass.isDigit c

theorem isStart_of_mayBegin {v : Value} {c : Char} (h : v.mayBegin c = true) :
    Lexer.isStart c = true :=
  (Bool.and_eq_true_iff.mp (Bool.and_eq_true_iff.mp h).1).1

/-- A leftmost part without a name or a numeral at its beginning, and no hash. -/
theorem mayBegin_of_isOrdinary {v : Value} (hhash : v.isKind .hash = false)
    (htoken : v.firstToken? = none) {c : Char} (h : Lexer.isOrdinary c = true) :
    v.mayBegin c = true := by
  simp only [Lexer.isOrdinary, Bool.and_eq_true] at h
  simp only [mayBegin, htoken, hhash, h.1.1, h.2, Bool.and_true, Bool.true_and]
  simpa using h.1.2

end Value

/-! ## Texts and drafts -/

/-- The first character of the text has a property. -/
def Text.BeginsWith (p : Char → Bool) (t : Text) : Prop := t.startsWith p = true

/-- The text begins like an expression. -/
def Text.Begins (t : Text) : Prop := t.BeginsWith Lexer.isStart

/-- If the draft has a text, then one whose first character has a property. -/
def Draft.BeginsWith (p : Char → Bool) (d : Draft) : Prop := ∀ t, d.build = .ok t → t.BeginsWith p

variable {p q : Char → Bool}

namespace Text

variable {s t : Text}

theorem BeginsWith.append (h : s.BeginsWith p) (t : Text) : Text.BeginsWith p (s ++ t) := by
  cases s with
  | nil => cases h
  | cons glyph s => exact h

theorem BeginsWith.mono (h : t.BeginsWith p) (hpq : ∀ c, p c = true → q c = true) :
    t.BeginsWith q := by
  cases t with
  | nil => cases h
  | cons glyph t =>
    cases glyph with
    | char c => exact hpq c h
    | _ => cases h

theorem beginsWith_grouped {needed : Bool} (hparen : needed = true → p '(' = true)
    (h : needed = false → t.BeginsWith p) : (t.grouped needed).BeginsWith p := by
  cases needed with
  | true => exact hparen rfl
  | false => exact h rfl

theorem Begins.grouped (h : t.Begins) (needed : Bool) : (t.grouped needed).Begins :=
  beginsWith_grouped (fun _ => by decide) fun _ => h

end Text

namespace Draft

variable {d : Draft} {t : Text}

theorem beginsWith_of (h : t.BeginsWith p) : (of t).BeginsWith p := by
  intro u hu
  cases (build_of t).symm.trans hu
  exact h

theorem BeginsWith.append (h : d.BeginsWith p) (e : Draft) : Draft.BeginsWith p (d ++ e) := by
  intro t ht
  obtain ⟨u, v, hu, -, rfl⟩ := (build_append_eq_ok_iff d e t).mp ht
  exact (h u hu).append v

theorem BeginsWith.mono (h : d.BeginsWith p) (hpq : ∀ c, p c = true → q c = true) :
    d.BeginsWith q :=
  fun t ht => (h t ht).mono hpq

theorem BeginsWith.after_nil (h : d.BeginsWith p) : Draft.BeginsWith p (of [] ++ d) := by
  intro t ht
  obtain ⟨_, hd, rfl⟩ := (build_text_cons_eq_ok_iff [] d t).mp ht
  exact h _ hd

theorem beginsWith_ofChars {text : List Char} (h : text.head?.any p = true) :
    (Draft.of (Text.ofChars text)).BeginsWith p := by
  refine beginsWith_of ?_
  cases text with
  | nil => cases h
  | cons c rest => exact h

theorem beginsWith_lit {text : String} (h : text.toList.head?.any p = true) :
    (lit text).BeginsWith p :=
  beginsWith_ofChars h

theorem beginsWith_parenthesized (d : Draft) (h : p '(' = true) : d.parenthesized.BeginsWith p :=
  ((beginsWith_lit (by exact h)).append d).append _

end Draft

/-! ## Names and numbers -/

namespace Lexer

/-- The characters that a name or a numeral begins with: no brace is one of them. -/
def beginsToken (c : Char) : Bool := isStart c && c != '\x7b'

theorem beginsToken_of_isWord {c : Char} (h : CharClass.isWord c = true) :
    beginsToken c = true := by
  have hne : c ≠ '\x7b' := by
    rintro rfl
    exact absurd h (by decide)
  rw [beginsToken, isStart, h, Bool.true_or, Bool.true_and]
  exact bne_iff_ne.mpr hne

theorem head_of_isIdentifier {text : List Char} (h : Literal.isIdentifier text = true) :
    text.head?.any beginsToken = true := by
  cases text with
  | nil => cases h
  | cons c rest =>
    exact beginsToken_of_isWord (Bool.and_eq_true_iff.mp (Bool.and_eq_true_iff.mp h).1).1

theorem head_of_isMethodName {text : List Char} (h : Literal.isMethodName text = true) :
    text.head?.any beginsToken = true := by
  rcases Bool.or_eq_true_iff.mp h with h | h
  · exact head_of_isIdentifier h
  · have hinit := head_of_isIdentifier (Bool.and_eq_true_iff.mp h).2
    cases text with
    | nil => cases hinit
    | cons c rest =>
      cases rest with
      | nil => cases hinit
      | cons d rest => exact hinit

theorem head_of_isVariable {text : List Char} (h : isVariable text = true) :
    text.head?.any beginsToken = true := by
  unfold isVariable at h
  split at h
  · exact (by decide : beginsToken '@' = true)
  · exact (by decide : beginsToken '@' = true)
  · exact (by decide : beginsToken '$' = true)
  · cases h

/-- A numeral begins with a digit or a minus sign. -/
theorem head_chars {n : Decimal.Numeral} (h : n.IsProper) (plusSign : Bool) :
    (n.chars plusSign).head?.any beginsToken = true := by
  rw [Decimal.Numeral.chars, NumberFormat.signed]
  split
  · exact (by decide : beginsToken '-' = true)
  · obtain ⟨d, ds, hwhole⟩ := List.exists_cons_of_ne_nil h.whole.1
    have hd := h.whole.2 d (hwhole ▸ List.mem_cons_self)
    rw [Decimal.Numeral.unsignedChars, hwhole]
    exact Decimal.forall_isDigit (P := fun d => beginsToken d = true) (by decide) hd

theorem head_rubyText (x : Double) : (NumberFormat.ruby.text x).head?.any beginsToken = true := by
  cases x with
  | nan => decide
  | infinity negative => cases negative <;> decide
  | finite negative exponent fraction =>
    rw [NumberFormat.text, ← NumberFormat.chars_numeral]
    exact head_chars (NumberFormat.isProper_numeral_shortest _ negative exponent fraction) _

theorem head_display {s : Scalar} (h : s.whole?.isSome = true) :
    s.display.toList.head?.any beginsToken = true := by
  cases s with
  | bool b => cases b <;> decide
  | int n =>
    rw [Scalar.display, String.toList_ofList, ← Decimal.Numeral.chars_ofInt false]
    exact head_chars (Decimal.Numeral.isProper_ofInt n) false
  | _ => cases h

end Lexer

/-- A leftmost part with a name or a numeral at its beginning. -/
theorem Value.head_of_firstToken? {v : Value} (hhash : v.isKind .hash = false) {token : List Char}
    (htoken : v.firstToken? = some token) (h : token.head?.any Lexer.beginsToken = true) :
    token.head?.any v.mayBegin = true := by
  cases token with
  | nil => cases h
  | cons c rest =>
    obtain ⟨hstart, hbrace⟩ := Bool.and_eq_true_iff.mp h
    have hne : (c == '\x7b') = false := beq_eq_false_iff_ne.mpr (bne_iff_ne.mp hbrace)
    show v.mayBegin c = true
    rw [mayBegin, htoken, hhash, hstart, hne]
    exact beq_self_eq_true _

/-! ## Renditions -/

/-- What is written of a value as an expression begins with a character that has a property. -/
def Rendition.BeginsWith (p : Char → Bool) (r : Rendition) : Prop :=
  (r.write .expression).Ensures (fun _ => True) (Draft.BeginsWith p)

/-- It begins like an expression. -/
def Rendition.Begins (r : Rendition) : Prop := r.BeginsWith Lexer.isStart

namespace Rendition

variable {r : Rendition}

theorem BeginsWith.text (h : r.BeginsWith p) :
    (r.text .expression).Ensures (fun _ => True) (Text.BeginsWith p) :=
  Writer.Ensures.built h fun _ hd t ht => hd t ht

theorem BeginsWith.mono (h : r.BeginsWith p) (hpq : ∀ c, p c = true → q c = true) :
    r.BeginsWith q :=
  Writer.Ensures.imp h fun _ hd => hd.mono hpq

/-- What is written of a value in a place that may put parentheses around it. -/
structure BeginsUnder (asks : Operator → Bool) (p : Char → Bool) (r : Rendition) : Prop where
  /-- With parentheses. -/
  enclosed : r.value.isEnclosed asks = true → p '(' = true
  /-- Without. -/
  bare : r.value.isEnclosed asks = false → r.BeginsWith p

theorem BeginsUnder.ensures {asks : Operator → Bool} (h : r.BeginsUnder asks p) :
    (do
      let text ← r.text .expression
      let child ← r.value.operator?
      return text.grouped (child.any asks) : Writer Text).Ensures
        (fun _ => True) (Text.BeginsWith p) := by
  intro s l t l' hl hrun
  rw [ReaderT.run_bind, StateT.run_bind] at hrun
  obtain ⟨⟨text, m⟩, htext, hrest⟩ := exists_of_bind_eq_ok hrun
  cases hchild : r.value.operator? with
  | error fault =>
    rw [hchild] at hrest
    cases hrest
  | ok child =>
    rw [hchild] at hrest
    cases hrest
    have henclosed : r.value.isEnclosed asks = child.any asks := by
      rw [Value.isEnclosed, hchild]
    refine ⟨trivial, Text.beginsWith_grouped (fun hneeded => ?_) fun hneeded => ?_⟩
    · exact h.enclosed (henclosed.trans hneeded)
    · exact ((h.bare (henclosed.trans hneeded)).text s l text m trivial htext).2

theorem BeginsUnder.operand {parent : Operator} {side : Side}
    (h : r.BeginsUnder (fun child => child.needsParens parent side) p) :
    (r.operand parent side).Ensures (fun _ => True) (Text.BeginsWith p) :=
  h.ensures

theorem BeginsUnder.memberOperand
    (h : r.BeginsUnder (fun child => child.needsParensAt Operator.memberRank) p) :
    r.memberOperand.Ensures (fun _ => True) (Text.BeginsWith p) :=
  h.ensures

theorem Begins.text (h : r.Begins) :
    (r.text .expression).Ensures (fun _ => True) Text.Begins :=
  BeginsWith.text h

theorem Begins.operand (h : r.Begins) (parent : Operator) (side : Side) :
    (r.operand parent side).Ensures (fun _ => True) Text.Begins :=
  BeginsUnder.operand ⟨fun _ => by decide, fun _ => h⟩

end Rendition

/-- The value is a name whose first character has a property. -/
def Value.BeginsWord (p : Char → Bool) (v : Value) : Prop :=
  ∃ text, v.text? = some text ∧ text.toList.head?.any p = true

theorem Draft.beginsWith_word {v : Value} (h : v.BeginsWord p) : (Draft.word v).BeginsWith p := by
  obtain ⟨text, htext, hhead⟩ := h
  rw [Draft.word, htext]
  exact beginsWith_lit hhead

/-- What is written of a field is nothing if the field is absent. -/
theorem FieldRendition.ensures_ifPresent_or {α : Type} {r : FieldRendition} {w : Writer (List α)}
    {Q : List α → Prop} (h : r.value.isNull = false → w.Ensures (fun _ => True) Q) :
    (r.ifPresent w).Ensures (fun _ => True) fun a =>
      (r.value.isNull = true ∧ a = []) ∨ (r.value.isNull = false ∧ Q a) :=
  Writer.ensures_ite (fun hnull => Writer.ensures_pure (.inl ⟨hnull, rfl⟩)) fun hnull =>
    (h (Bool.eq_false_iff.mpr hnull)).imp fun _ ha => .inr ⟨Bool.eq_false_iff.mpr hnull, ha⟩

open Writer (ensures_pure ensures_throw ensures_lift ensures_integer ensures_ite ensures_after)
open FieldRendition (ensures_ifPresent_or)
open Draft (beginsWith_of beginsWith_lit beginsWith_word beginsWith_parenthesized)

/-- What is written, if it has a text, begins with a character that has a property. -/
def Writer.BeginsWith (p : Char → Bool) (w : Writer Draft) : Prop :=
  w.Ensures (fun _ => True) (Draft.BeginsWith p)

namespace Writer

theorem BeginsWith.mono {w : Writer Draft} (h : w.BeginsWith p)
    (hpq : ∀ c, p c = true → q c = true) : w.BeginsWith q :=
  Ensures.imp h fun _ hd => hd.mono hpq

end Writer

namespace Rules

variable {v : Value} {c : Field → FieldRendition}

/-! ## The left edge -/

theorem begins_logical {op : Operator}
    (hleft : (c .left).BeginsUnder (fun child => child.needsParens op .left) p) (asWord : Bool) :
    (logical c op asWord).BeginsWith p := by
  refine hleft.operand.bind fun left hl => ensures_after fun right =>
    ensures_ite (fun _ => ensures_pure ?_) fun _ => ensures_pure ?_
  · exact ((beginsWith_of hl).append _).append _
  · exact beginsWith_of (((hl.append _).append _).append _)

theorem begins_range
    (hopen : (c .left).value.isNull = true ∨ (c .right).value.isNull = true → p '(' = true)
    (hleft : (c .left).value.isNull = false → (c .right).value.isNull = false →
      (c .left).BeginsUnder (fun child => child.needsParens
        (if (c .exclusive).value.isTrue then .exclusiveRange else .inclusiveRange) .left) p) :
    (range c).BeginsWith p := by
  by_cases hends : (c .left).value.isNull = true ∨ (c .right).value.isNull = true
  · refine ensures_after fun left => ensures_after fun right => ensures_pure ?_
    rw [Draft.grouped, if_pos (by simpa using hends)]
    exact beginsWith_parenthesized _ (hopen hends)
  · rw [not_or, Bool.not_eq_true, Bool.not_eq_true] at hends
    rw [range, FieldRendition.ifPresent, if_neg (by rw [hends.1]; exact Bool.false_ne_true)]
    refine (hleft hends.1 hends.2).operand.bind fun left hl => ensures_after fun right =>
      ensures_pure ?_
    rw [Draft.grouped, hends.1, hends.2]
    exact ((beginsWith_of hl).append _).append _

theorem begins_assignment (h : (c .name).value.BeginsWord p) : (assignment c).BeginsWith p :=
  ensures_after fun _ => ensures_pure ((beginsWith_word h).append _)

theorem begins_compoundAssignment (h : (c .target).BeginsWith p) :
    (compoundAssignment c).BeginsWith p := by
  have hrest : (do
      let text ← (c .target).text .expression
      if text.isEmpty then throw .emptyText
      let gap := if text.endsWith Text.isNameMark then Draft.lit " " else []
      let value ← (c .value).operand .assign .right
      return Draft.of text ++ gap ++ Draft.word (c .operator).value ++ Draft.of value :
        Writer Draft).BeginsWith p :=
    h.text.bind fun _ ht => ensures_ite (fun _ => ensures_throw _) fun _ =>
      ensures_after fun _ =>
        ensures_pure ((((beginsWith_of ht).append _).append _).append _)
  rw [compoundAssignment]
  by_cases hlocal : (c .target).value.isKind .localRead = true
  · simp only [hlocal, if_true]
    exact ensures_after fun _ => hrest
  · simp only [hlocal]
    exact hrest

theorem begins_constantPath (htop : (c .parent).value.isNull = true → p ':' = true)
    (hparent : (c .parent).value.isNull = false →
      (c .parent).BeginsUnder (fun child => child.needsParensAt Operator.memberRank) p) :
    (constantPath c).BeginsWith p := by
  refine (ensures_ifPresent_or fun hnull => (hparent hnull).memberOperand).bind fun parent hp =>
    ensures_pure ?_
  obtain ⟨hnull, rfl⟩ | ⟨-, hp⟩ := hp
  · exact (beginsWith_lit (by exact htop hnull)).after_nil.append _
  · exact ((beginsWith_of hp).append _).append _

/-! ## Calls -/

theorem begins_unaryCall (op : Operator) : (unaryCall c op).BeginsWith Lexer.isOrdinary := by
  refine ensures_after fun operand => ?_
  split
  · exact ensures_ite (fun _ => ensures_throw _) fun _ =>
      ensures_pure (((beginsWith_lit (by decide)).append _).append _)
  · exact ensures_pure ((beginsWith_lit (by decide)).append _)
  · refine ensures_pure (Draft.BeginsWith.append ?_ _)
    split <;> exact beginsWith_lit (by decide)

theorem begins_binaryCall {op : Operator}
    (h : (c .receiver).BeginsUnder (fun child => child.needsParens op .left) p)
    (argument : Rendition) : (binaryCall c op argument).BeginsWith p :=
  h.operand.bind fun _ ht => ensures_after fun _ =>
    ensures_pure (beginsWith_of (((ht.append _).append _).append _))

theorem begins_plainCall
    (hreceiver : (c .receiver).value.isNull = false →
      (c .receiver).BeginsUnder (fun child => child.needsParensAt Operator.memberRank) p)
    (hname : (c .receiver).value.isNull = true → (c .name).value.BeginsWord p) :
    (plainCall c).BeginsWith p := by
  have hdotted (hnull : (c .receiver).value.isNull = false) : (do
      return Draft.of (← (c .receiver).memberOperand) ++ dot c : Writer Draft).BeginsWith p :=
    (hreceiver hnull).memberOperand.bind fun _ ht => ensures_pure ((beginsWith_of ht).append _)
  refine (ensures_ifPresent_or hdotted).bind fun front hfront => ensures_after fun list =>
    ensures_after fun block => ensures_pure ?_
  refine Draft.BeginsWith.append (Draft.BeginsWith.append ?_ _) _
  obtain ⟨hnull, rfl⟩ | ⟨-, hfront⟩ := hfront
  · exact beginsWith_word (hname hnull)
  · exact hfront.append _

/-- How a call begins: with its name, with its receiver, or with a sign or a parenthesis. -/
theorem begins_call (helements : (c .arguments).elements.map Rendition.value =
      (c .arguments).value.elements)
    (hname : (c .receiver).value.isNull = true → (c .name).value.BeginsWord p)
    (hbare : Value.receiverEnclosed? (fun f => (c f).value) = some false →
      (c .receiver).BeginsWith p)
    (hordinary : (c .receiver).value.isNull = false →
      Value.receiverEnclosed? (fun f => (c f).value) ≠ some false →
        ∀ ch, Lexer.isOrdinary ch = true → p ch = true) :
    (call c).BeginsWith p := by
  have hunder {asks : Operator → Bool} (hnull : (c .receiver).value.isNull = false)
      (h : Value.receiverEnclosed? (fun f => (c f).value) =
        some ((c .receiver).value.isEnclosed asks)) : (c .receiver).BeginsUnder asks p := by
    refine ⟨fun henclosed => hordinary hnull ?_ '(' (by decide), fun henclosed => hbare ?_⟩
    · rw [h, henclosed]
      decide
    · rw [h, henclosed]
  refine (ensures_lift (Q := fun shape => CallShape.of (fun f => (c f).value) = .ok shape)
    fun _ h => h).bind fun shape hshape => ?_
  cases hnull : (c .receiver).value.isNull with
  | true =>
    have hplain : shape = .plain := by
      rw [CallShape.of, if_pos hnull] at hshape
      exact (Except.ok.inj hshape).symm
    rw [hplain]
    exact begins_plainCall (fun hpresent => absurd (hnull.symm.trans hpresent) (by decide)) hname
  | false =>
    have henclosed : Value.receiverEnclosed? (fun f => (c f).value) =
        Value.enclosesReceiver? (c .receiver).value shape := by
      rw [Value.receiverEnclosed?, hnull, hshape]
      rfl
    have hplain (h : Value.receiverEnclosed? (fun f => (c f).value) =
        some (c .receiver).value.isEnclosedAsMember) : (plainCall c).BeginsWith p :=
      begins_plainCall (fun _ => hunder hnull h) fun habsent =>
        absurd (hnull.symm.trans habsent) (by decide)
    cases shape with
    | unary op =>
      refine (begins_unaryCall op).mono (hordinary hnull ?_)
      rw [henclosed]
      intro h
      cases h
    | binary op =>
      obtain ⟨argument, harguments⟩ : ∃ argument, (c .arguments).elements = [argument] := by
        obtain (h | h) | ⟨_, h, _⟩ | ⟨op', h, hbinary⟩ | ⟨h, _⟩ | ⟨h, _⟩ :=
          CallShape.cases_of_eq_ok hshape
        iterate 3 cases h
        · obtain ⟨-, w, hw⟩ :=
            CallShape.of_isSingleValue (CallShape.of_binary?_eq_some hbinary).1
          rw [← helements, List.map_eq_singleton_iff] at hw
          exact ⟨_, hw.choose_spec.1⟩
        iterate 2 cases h
      rw [harguments]
      exact begins_binaryCall (hunder hnull henclosed) argument
    | indexAssign =>
      cases (c .arguments).elements.getLast? with
      | none => exact hplain henclosed
      | some value =>
        exact (hunder hnull henclosed).memberOperand.bind fun _ ht =>
          ensures_after fun _ => ensures_after fun _ =>
            ensures_pure (((beginsWith_of ht).append _).append _)
    | attributeAssign =>
      cases (c .arguments).elements with
      | nil => exact hplain henclosed
      | cons value rest =>
        exact (hunder hnull henclosed).memberOperand.bind fun _ ht =>
          ensures_after fun _ =>
            ensures_pure ((((beginsWith_of ht).append _).append _).append _)
    | index =>
      exact (hunder hnull henclosed).memberOperand.bind fun _ ht =>
        ensures_after fun _ => ensures_after fun _ =>
          ensures_pure ((beginsWith_of ht).append _)
    | plain => exact hplain henclosed

/-! ## Literals -/

theorem begins_symbol (value : Value) :
    (liftM (symbol value) : Writer Draft).BeginsWith Lexer.isOrdinary := by
  refine ensures_lift fun d hd => ?_
  unfold symbol at hd
  split at hd
  · cases hd
    refine Draft.beginsWith_ofChars ?_
    rw [Literal.symbol]
    split <;> exact (by decide : Lexer.isOrdinary ':' = true)
  · cases hd

theorem begins_string {content : Value} (h : content.isText = true) :
    (liftM (string content) : Writer Draft).BeginsWith Lexer.isOrdinary := by
  refine ensures_lift fun d hd => ?_
  obtain ⟨text, htext⟩ := Option.isSome_iff_exists.mp h
  rw [string, Content.literal, htext] at hd
  cases hd
  refine Draft.beginsWith_ofChars ?_
  rw [Literal.string]
  split
  · exact (by decide : Lexer.isOrdinary '\'' = true)
  · exact (by decide : Lexer.isOrdinary '"' = true)

theorem begins_interpolated : (interpolated c).BeginsWith Lexer.isOrdinary :=
  ensures_after fun _ => ensures_after fun _ =>
    Writer.Ensures.bind (Q := Text.BeginsWith Lexer.isOrdinary)
      (ensures_after fun _ => ensures_pure (by decide : Lexer.isOrdinary '"' = true))
      fun _ ht => ensures_pure (beginsWith_of ht)

/-! ## Keywords -/

theorem begins_conditional {keyword : String} (h : keyword.toList.head?.any p = true) :
    (conditional keyword c).BeginsWith p :=
  ensures_after fun _ => ensures_after fun _ => ensures_after fun _ =>
    ensures_pure ((((beginsWith_lit h).append _).append _).append _)

theorem begins_loop {keyword : String} (h : keyword.toList.head?.any p = true) :
    (loop keyword c).BeginsWith p :=
  ensures_after fun _ => ensures_after fun _ =>
    ensures_pure ((((beginsWith_lit h).append _).append _).append _)

theorem begins_jump {keyword : String} (h : keyword.toList.head?.any p = true) :
    (jump keyword c).BeginsWith p :=
  ensures_ite (fun _ => ensures_after fun _ => ensures_pure ((beginsWith_lit h).append _))
    fun _ => ensures_pure (beginsWith_lit h)

theorem begins_superCall : (superCall c).BeginsWith Lexer.isOrdinary := by
  have hend (list : Draft) : (do
      let block ← attachedBlock (c .block)
      return Draft.lit "super" ++ list ++ block).BeginsWith Lexer.isOrdinary :=
    ensures_after fun _ =>
      ensures_pure (((beginsWith_lit (by decide)).append _).append _)
  unfold superCall
  dsimp only
  split
  · exact ensures_after fun _ => ensures_after fun _ => hend _
  · exact ensures_after fun _ => hend _
  · exact hend _

theorem begins_yieldCall : (yieldCall c).BeginsWith Lexer.isOrdinary :=
  ensures_ite (fun _ => ensures_after fun _ => ensures_after fun _ =>
      ensures_pure ((beginsWith_lit (by decide)).append _))
    fun _ => ensures_pure (beginsWith_lit (by decide))

/-! ## All expressions -/

/-- The part at the left edge of a node begins like its leftmost part, and the names of the node
are proper. -/
structure PartsBegin (kind : Kind) (field : Field → Value) (c : Field → FieldRendition) : Prop where
  /-- The part at the left edge. -/
  left : ∀ f, Value.leftField? kind field = some f →
    (c f).BeginsWith (field f).leftmost.mayBegin
  /-- The parts are those of the node. -/
  values : ∀ f, (c f).value = field f
  /-- So are the arguments. -/
  arguments : (c .arguments).elements.map Rendition.value = (field .arguments).elements
  /-- The node has a proper name. -/
  named : (Value.node kind field).isNamed = true

namespace PartsBegin

variable {kind : Kind} {field : Field → Value}

theorem isTyped (h : PartsBegin kind field c) {f : Field} (hown : kind.owns f = true) :
    (kind.position f).isTyped (c f).value = true := by
  rw [h.values]
  exact Value.isTyped_of_isNamed h.named hown

/-- A part at the left edge, where it may get parentheses. -/
theorem beginsUnder (h : PartsBegin kind field c) {f : Field} (asks : Operator → Bool)
    (hleft : Value.leftField? kind field = if (field f).isEnclosed asks then none else some f)
    (hhash : (Value.node kind field).isKind .hash = false)
    (htoken : (Value.node kind field).firstToken? = none) :
    (c f).BeginsUnder asks (Value.node kind field).leftmost.mayBegin := by
  constructor
  · intro henclosed
    rw [h.values] at henclosed
    rw [henclosed, if_pos rfl] at hleft
    rw [Value.leftmost_of_none hleft]
    exact Value.mayBegin_of_isOrdinary hhash htoken (by decide)
  · intro hbare
    rw [h.values] at hbare
    rw [hbare, if_neg Bool.false_ne_true] at hleft
    rw [Value.leftmost_of_some hleft]
    exact h.left f hleft

/-- The name of a node that begins with it. -/
theorem beginsWord (h : PartsBegin kind field c) (hown : kind.owns .name = true)
    (hposition : kind.position .name = .name) (hnone : Value.leftField? kind field = none)
    (hhash : (Value.node kind field).isKind .hash = false)
    (htoken : (Value.node kind field).firstToken? = (field .name).text?.map String.toList)
    (hproper : ∀ text, Value.isProperName kind field text = true →
      text.head?.any Lexer.beginsToken = true) :
    (c .name).value.BeginsWord (Value.node kind field).leftmost.mayBegin := by
  have htyped := h.isTyped hown
  rw [hposition] at htyped
  obtain ⟨text, htext, -⟩ := (Option.any_eq_true _ _).mp htyped
  refine ⟨text, htext, ?_⟩
  rw [h.values] at htext
  rw [htext] at htoken
  rw [Value.leftmost_of_none hnone]
  exact Value.head_of_firstToken? hhash htoken
    (hproper _ (Value.isProperName_of_isNamed h.named hown htext))

end PartsBegin

/-- A node that begins neither with a part of it nor with a name or a numeral, and is no hash. -/
theorem begins_own {kind : Kind} {field : Field → Value} {w : Writer Draft}
    (hnone : Value.leftField? kind field = none)
    (hhash : (Value.node kind field).isKind .hash = false)
    (htoken : (Value.node kind field).firstToken? = none) (hw : w.BeginsWith Lexer.isOrdinary) :
    w.BeginsWith (Value.node kind field).leftmost.mayBegin := by
  rw [Value.leftmost_of_none hnone]
  exact hw.mono fun ch hch => Value.mayBegin_of_isOrdinary hhash htoken hch

section Nodes

variable {field : Field → Value}

theorem begins_callNode (h : PartsBegin .call field c) :
    (call c).BeginsWith (Value.node .call field).leftmost.mayBegin := by
  have hfield : (fun f => (c f).value) = field := funext h.values
  refine begins_call ?_ (fun hnull => ?_) (fun hbare => ?_) fun hpresent hne => ?_
  · rw [h.values, h.arguments]
  · rw [h.values] at hnull
    have hnone : Value.leftField? .call field = none := by
      rw [Value.leftField?, Value.receiverEnclosed?, if_pos hnull]
      rfl
    refine h.beginsWord rfl rfl hnone rfl (if_pos hnull) fun text hproper => ?_
    rw [Value.isProperName, hnull] at hproper
    exact Lexer.head_of_isMethodName (by simpa using hproper)
  · rw [hfield] at hbare
    have hleft : Value.leftField? .call field = some .receiver := if_pos hbare
    rw [Value.leftmost_of_some hleft]
    exact h.left .receiver hleft
  · rw [hfield] at hne
    rw [h.values] at hpresent
    have hnone : Value.leftField? .call field = none := if_neg hne
    rw [Value.leftmost_of_none hnone]
    refine fun ch => Value.mayBegin_of_isOrdinary rfl ?_
    exact if_neg (by rw [hpresent]; exact Bool.false_ne_true)

/-- A conjunction or a disjunction, which is written as a word or as a symbol. -/
theorem begins_connective {kind : Kind} (h : PartsBegin kind field c) {word symbol : Operator}
    (hleft : Value.leftField? kind field =
      if (field .left).isEnclosedUnder (if (field .keyword).isTrue then word else symbol) .left
      then none else some .left)
    (hhash : (Value.node kind field).isKind .hash = false)
    (htoken : (Value.node kind field).firstToken? = none) :
    Writer.BeginsWith (Value.node kind field).leftmost.mayBegin
      (if (c .keyword).value.isTrue then logical c word true else logical c symbol false) := by
  have hunder := h.beginsUnder _ hleft hhash htoken
  refine ensures_ite (fun hword => ?_) fun hword => ?_
  · rw [h.values] at hword
    rw [if_pos hword] at hunder
    exact begins_logical hunder true
  · rw [h.values] at hword
    rw [if_neg hword] at hunder
    exact begins_logical hunder false

theorem begins_integerNode (h : PartsBegin .integer field c) :
    (liftM (integer (c .value).value) : Writer Draft).BeginsWith
      (Value.node .integer field).leftmost.mayBegin := by
  have htyped : (c .value).value.isWhole = true := h.isTyped (f := .value) rfl
  rw [h.values] at htyped
  refine ensures_integer (beginsWith_lit ?_)
  rw [h.values, Value.leftmost_of_none rfl]
  refine Value.head_of_firstToken? rfl rfl ?_
  cases hvalue : field .value with
  | scalar s =>
    rw [hvalue] at htyped
    exact Lexer.head_display htyped
  | _ =>
    rw [hvalue] at htyped
    cases htyped

theorem begins_floatNode (h : PartsBegin .float field c) :
    (liftM (float (c .value).value) : Writer Draft).BeginsWith
      (Value.node .float field).leftmost.mayBegin := by
  have htyped : (c .value).value.isDouble = true := h.isTyped (f := .value) rfl
  rw [h.values] at htyped
  refine ensures_lift fun d hd => ?_
  rw [h.values] at hd
  rw [Value.leftmost_of_none rfl]
  unfold Value.isDouble at htyped
  split at htyped
  · rename_i x hvalue
    rw [hvalue] at hd
    cases hd
    refine Draft.beginsWith_ofChars (Value.head_of_firstToken? rfl ?_ (Lexer.head_rubyText x))
    rw [Value.firstToken?, hvalue]
    rfl
  · cases htyped

theorem begins_rangeNode (h : PartsBegin .range field c) :
    (range c).BeginsWith (Value.node .range field).leftmost.mayBegin := by
  refine begins_range (fun hopen => ?_) fun hleft hright => ?_
  · rw [h.values, h.values] at hopen
    rw [Value.leftmost_of_none]
    · exact Value.mayBegin_of_isOrdinary rfl rfl (by decide)
    · rw [Value.leftField?, if_pos]
      obtain hopen | hopen := hopen <;> simp [hopen]
  · rw [h.values] at hleft hright
    rw [h.values]
    refine h.beginsUnder _ ?_ rfl rfl
    rw [Value.leftField?, hleft, hright]
    rfl

theorem begins_constantPathNode (h : PartsBegin .constantPath field c) :
    (constantPath c).BeginsWith (Value.node .constantPath field).leftmost.mayBegin := by
  refine begins_constantPath (fun hnull => ?_) fun hpresent => h.beginsUnder _ ?_ rfl rfl
  · rw [h.values] at hnull
    rw [Value.leftmost_of_none (by rw [Value.leftField?, hnull]; rfl)]
    exact Value.mayBegin_of_isOrdinary rfl rfl (by decide)
  · rw [h.values] at hpresent
    rw [Value.leftField?, hpresent]
    rfl

end Nodes

theorem begins_expression {kind : Kind} {field : Field → Value} (h : PartsBegin kind field c)
    (hkind : kind ≠ .statements) :
    (expression (.node kind field) c).BeginsWith (Value.node kind field).leftmost.mayBegin := by
  have hname := h.beginsWord
  cases kind
  case statements => exact absurd rfl hkind
  case methodDef =>
    exact begins_own rfl rfl rfl <| ensures_after fun _ => ensures_after fun _ =>
      ensures_pure (((((beginsWith_lit (by decide)).append _).append _).append _).append _)
  case classDef =>
    exact begins_own rfl rfl rfl <| ensures_after fun _ => ensures_after fun _ =>
      ensures_after fun _ =>
        ensures_pure (((((beginsWith_lit (by decide)).append _).append _).append _).append _)
  case singletonClass | moduleDef =>
    exact begins_own rfl rfl rfl <| ensures_after fun _ => ensures_after fun _ =>
      ensures_pure ((((beginsWith_lit (by decide)).append _).append _).append _)
  case ifThen =>
    exact begins_own rfl rfl rfl <|
      (begins_conditional (by decide)).bind fun _ hd => ensures_pure (hd.append _)
  case unlessThen =>
    exact begins_own rfl rfl rfl <| ensures_after fun _ => ensures_after fun _ =>
      ensures_after fun _ => ensures_pure
        (((((beginsWith_lit (by decide)).append _).append _).append _).append _)
  case caseOf =>
    exact begins_own rfl rfl rfl <| ensures_after fun _ => ensures_after fun _ =>
      ensures_after fun _ => ensures_after fun _ => ensures_pure
        ((((((beginsWith_lit (by decide)).append _).append _).append _).append _).append _)
  case whileLoop | untilLoop => exact begins_own rfl rfl rfl (begins_loop (by decide))
  case forLoop =>
    exact begins_own rfl rfl rfl <| ensures_after fun _ => ensures_after fun _ =>
      ensures_after fun _ => ensures_pure
        ((((((beginsWith_lit (by decide)).append _).append _).append _).append _).append _)
  case beginBlock =>
    exact begins_own rfl rfl rfl <| ensures_after fun _ => ensures_after fun _ =>
      ensures_after fun _ => ensures_after fun _ =>
        ensures_after fun _ => ensures_pure
          ((((((beginsWith_lit (by decide)).append _).append _).append _).append _).append _)
  case call => exact begins_callNode h
  case logicalAnd => exact begins_connective h rfl rfl rfl
  case logicalOr => exact begins_connective h rfl rfl rfl
  case logicalNot =>
    exact begins_own rfl rfl rfl <|
      ensures_after fun _ => ensures_pure ((beginsWith_lit (by decide)).append _)
  case returnJump | breakJump | nextJump => exact begins_own rfl rfl rfl (begins_jump (by decide))
  case yieldCall => exact begins_own rfl rfl rfl begins_yieldCall
  case superCall => exact begins_own rfl rfl rfl begins_superCall
  case integer => exact begins_integerNode h
  case float => exact begins_floatNode h
  case symbol => exact begins_own rfl rfl rfl (begins_symbol _)
  case string => exact begins_own rfl rfl rfl (begins_string (h.isTyped (f := .content) rfl))
  case interpolated => exact begins_own rfl rfl rfl begins_interpolated
  case array =>
    exact begins_own rfl rfl rfl <| ensures_after fun _ => ensures_after fun _ =>
      ensures_pure (((beginsWith_lit (by decide)).append _).append _)
  case hash =>
    exact ensures_after fun _ =>
      ensures_pure (((beginsWith_lit rfl).append _).append _)
  case range => exact begins_rangeNode h
  case parentheses =>
    exact begins_own rfl rfl rfl <|
      ensures_after fun _ => ensures_pure (beginsWith_parenthesized _ (by decide))
  case localRead | constantRead =>
    exact ensures_pure (beginsWith_word (hname rfl rfl rfl rfl rfl
      fun _ => Lexer.head_of_isIdentifier))
  case instanceRead | globalRead =>
    exact ensures_pure (beginsWith_word (hname rfl rfl rfl rfl rfl
      fun _ => Lexer.head_of_isVariable))
  case localWrite =>
    exact ensures_after fun _ =>
      begins_assignment (hname rfl rfl rfl rfl rfl fun _ => Lexer.head_of_isIdentifier)
  case constantWrite =>
    exact begins_assignment (hname rfl rfl rfl rfl rfl fun _ => Lexer.head_of_isIdentifier)
  case instanceWrite | globalWrite =>
    exact begins_assignment (hname rfl rfl rfl rfl rfl fun _ => Lexer.head_of_isVariable)
  case constantPath => exact begins_constantPathNode h
  case operatorWrite =>
    rw [Value.leftmost_of_some rfl]
    exact begins_compoundAssignment (h.left .target rfl)
  case trueLiteral | falseLiteral | nilLiteral | selfLiteral =>
    exact begins_own rfl rfl rfl (ensures_pure (beginsWith_lit (by decide)))
  all_goals exact ensures_throw _

end Rules

/-! ## Trees -/

namespace Value

/-- What is no node cannot be written as an expression. -/
theorem begins_of_not_isNode {v : Value} (h : v.isNode = false) : v.rendition.BeginsWith p := by
  have hwrite : v.rendition.write .expression = throw (.unsupported v.typeName
      (Rules.misplacement v.kind?)) := by
    cases v with
    | node kind field => cases h
    | _ => rfl
  rw [Rendition.BeginsWith, hwrite]
  exact ensures_throw _

/-- What stands at the left edge of a node is an expression, and one with proper names. -/
theorem of_leftField? {kind : Kind} {field : Field → Value} {f : Field}
    (hleft : leftField? kind field = some f) (h : (node kind field).isNamedTree = true) :
    (field f).isNamedTree = true ∧ (field f).isKind .statements = false := by
  have hposition : kind.owns f = true ∧
      (kind.position f = .one .expression ∨ kind.position f = .optional .expression) := by
    unfold leftField? at hleft
    split at hleft
    -- a compound assignment always begins with its target, and other kinds have no such part
    case h_5 =>
      cases hleft
      decide
    case h_7 => cases hleft
    all_goals
      split at hleft <;> cases hleft
      decide
  have htyped := isTyped_of_isNamed (isNamed_of_isNamedTree h) hposition.1
  refine ⟨isNamedTree_field h hposition.1, ?_⟩
  obtain hposition | hposition := hposition.2 <;>
    simpa [hposition, Position.isTyped] using htyped

/-- **An expression begins like its leftmost part.** -/
theorem begins_leftmost {v : Value} (h : v.isNamedTree = true)
    (hkind : v.isKind .statements = false) : v.rendition.BeginsWith v.leftmost.mayBegin := by
  induction v using Value.induction with
  | node kind field ih =>
    refine Rules.begins_expression ⟨fun f hleft => ?_, fun f => rendition_value (field f),
      rendition_elements _, isNamed_of_isNamedTree h⟩ (by simpa [isKind, kind?] using hkind)
    obtain ⟨hnamed, hstatements⟩ := of_leftField? hleft h
    exact ih f hnamed hstatements
  | _ => exact begins_of_not_isNode rfl

/-- **An expression begins with a name, a number, a quote, a bracket or a sign.** -/
theorem begins_rendition {v : Value} (h : v.isNamedTree = true)
    (hkind : v.isKind .statements = false) : v.rendition.Begins :=
  (begins_leftmost h hkind).mono fun _ => isStart_of_mayBegin

end Value
end TerseRuby
