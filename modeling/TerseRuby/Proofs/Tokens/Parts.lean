import TerseRuby.Proofs.Acceptance.Grammar
import TerseRuby.Proofs.Rendering.Outcome
import TerseRuby.Proofs.Tokens.Literals

/-!
# Texts and drafts that close what they open

What a rule writes is made of the texts of its parts, of names and of literal characters.  All of
these are closed in the sense of `Lexer.Closed`, however the cosmetic choices are made, and so is
what they make together.  `Text.Settled` says so of a text and `Draft.Settled` of a draft.

Names are taken from the tree, where they may be spelled in any way.  So the trees have to be typed,
and their names spelled like names of the language (`Value.isNamedTree`), and where whole texts are
concerned their comments and operators too (`Value.isSpelledTree`).
-/

set_option autoImplicit false

namespace TerseRuby

/-! ## Trees with proper names -/

/-- The operators of compound assignments. -/
def Literal.compoundOperators : List (List Char) :=
  ["+=", "-=", "*=", "/=", "%=", "**=", "<<=", ">>=", "&=", "|=", "^=", "&&=", "||="].map
    String.toList

namespace Value

/-- Whether a text can be the name of a node.  An operator is one of a method, but a call without a
receiver cannot be written by it. -/
def isProperName (kind : Kind) (field : Field → Value) (text : List Char) : Bool :=
  match kind with
  | .call =>
    Literal.isMethodName text
      || (!(field .receiver).isNull && Literal.operatorNames.contains text)
  | .methodDef => Literal.isMethodName text || Literal.operatorNames.contains text
  | .instanceRead | .instanceWrite | .globalRead | .globalWrite => Lexer.isVariable text
  | _ => Literal.isIdentifier text

/-- Whether a text in a field of a node is spelled like what stands there.  The texts of strings and
symbols may be anything, and a comment has to be a single line. -/
def isProperText (kind : Kind) (field : Field → Value) (f : Field) (text : List Char) : Bool :=
  match f with
  | .name => isProperName kind field text
  | .reference => Literal.isIdentifier text
  | .operator => Literal.compoundOperators.contains text
  | .text => !text.contains '\n'
  | _ => true

/-- Whether the fields of a node are of their types, and its name is spelled properly. -/
def isNamed : Value → Bool
  | .node kind field =>
    (Value.node kind field).isTyped &&
      (!kind.owns .name || (field .name).text?.all fun text => isProperName kind field text.toList)
  | _ => true

/-- **Whether all nodes of a tree have proper names.** -/
def isNamedTree (v : Value) : Bool := v.preorder.all isNamed

/-- Whether the fields of a node are of their types, and the texts in them are spelled properly. -/
def isSpelled : Value → Bool
  | .node kind field =>
    (Value.node kind field).isTyped &&
      kind.ownFields.all fun entry =>
        (field entry.1).text?.all fun text => isProperText kind field entry.1 text.toList
  | _ => true

/-- **Whether all nodes of a tree have proper names, comments and operators.** -/
def isSpelledTree (v : Value) : Bool := v.preorder.all isSpelled

theorem isNamed_of_not_isNode {v : Value} (h : v.isNode = false) : v.isNamed = true := by
  cases v with
  | node kind field => cases h
  | _ => rfl

theorem isSpelled_of_not_isNode {v : Value} (h : v.isNode = false) : v.isSpelled = true := by
  cases v with
  | node kind field => cases h
  | _ => rfl

section Fields

variable {kind : Kind} {field : Field → Value}

theorem isNamed_of_isNamedTree {v : Value} (h : v.isNamedTree = true) : v.isNamed = true :=
  List.all_eq_true.mp h v List.mem_cons_self

theorem isNamedTree_field (h : (Value.node kind field).isNamedTree = true) {f : Field}
    (hown : kind.owns f = true) : (field f).isNamedTree = true :=
  all_preorder_field (fun _ => isNamed_of_not_isNode) h (Kind.mem_ownFields_of_owns hown)

theorem isTyped_of_isNamed (h : (Value.node kind field).isNamed = true) {f : Field}
    (hown : kind.owns f = true) : (kind.position f).isTyped (field f) = true :=
  isTyped_position (Bool.and_eq_true_iff.mp h).1 f hown

theorem isProperName_of_isNamed (h : (Value.node kind field).isNamed = true)
    (hown : kind.owns .name = true) {text : String} (htext : (field .name).text? = some text) :
    isProperName kind field text.toList = true := by
  have hname := (Bool.and_eq_true_iff.mp h).2
  rwa [hown, htext] at hname

theorem isSpelled_of_isSpelledTree {v : Value} (h : v.isSpelledTree = true) : v.isSpelled = true :=
  List.all_eq_true.mp h v List.mem_cons_self

theorem isSpelledTree_field (h : (Value.node kind field).isSpelledTree = true) {f : Field}
    (hown : kind.owns f = true) : (field f).isSpelledTree = true :=
  all_preorder_field (fun _ => isSpelled_of_not_isNode) h (Kind.mem_ownFields_of_owns hown)

theorem isTyped_of_isSpelled (h : (Value.node kind field).isSpelled = true) {f : Field}
    (hown : kind.owns f = true) : (kind.position f).isTyped (field f) = true :=
  isTyped_position (Bool.and_eq_true_iff.mp h).1 f hown

theorem isProperText_of_isSpelled (h : (Value.node kind field).isSpelled = true) {f : Field}
    (hown : kind.owns f = true) {text : String} (htext : (field f).text? = some text) :
    isProperText kind field f text.toList = true := by
  obtain ⟨entry, hentry, rfl⟩ := List.mem_map.mp (Kind.mem_ownFields_of_owns hown)
  have hall := List.all_eq_true.mp (Bool.and_eq_true_iff.mp h).2 entry hentry
  rwa [htext] at hall

theorem isNamed_of_isSpelled {v : Value} (h : v.isSpelled = true) : v.isNamed = true := by
  cases v with
  | node kind field =>
    refine Bool.and_eq_true_iff.mpr ⟨(Bool.and_eq_true_iff.mp h).1, ?_⟩
    cases hown : kind.owns .name with
    | false => rfl
    | true =>
      cases htext : (field .name).text? with
      | none => rfl
      | some text => exact isProperText_of_isSpelled h hown htext
  | _ => rfl

theorem isNamedTree_of_isSpelledTree {v : Value} (h : v.isSpelledTree = true) :
    v.isNamedTree = true :=
  List.all_eq_true.mpr fun d hd => isNamed_of_isSpelled (List.all_eq_true.mp h d hd)

end Fields

/-- If the value is a text, then one that can be read anywhere, also after a colon. -/
def IsWord (v : Value) : Prop :=
  ∀ text, v.text? = some text → Lexer.ClosedName text.toList

theorem closedName_of_isIdentifier {text : List Char} (h : Literal.isIdentifier text = true) :
    Lexer.ClosedName text :=
  .of_isPlain (Lexer.forall_isPlain_of_isIdentifier h).1 (Lexer.forall_isPlain_of_isIdentifier h).2

theorem closedName_of_isProperName {kind : Kind} {field : Field → Value} {text : List Char}
    (h : isProperName kind field text = true) : Lexer.ClosedName text := by
  have hmethod (h : Literal.isMethodName text = true ∨ Literal.operatorNames.contains text = true) :
      Lexer.ClosedName text := by
    obtain h | h := h
    · exact .of_isPlain (Lexer.forall_isPlain_of_isMethodName h).1
        (Lexer.forall_isPlain_of_isMethodName h).2
    · exact Lexer.closedName_of_mem_operatorNames (List.contains_iff_mem.mp h)
  unfold isProperName at h
  split at h
  · exact hmethod ((Bool.or_eq_true_iff.mp h).imp_right fun h => (Bool.and_eq_true_iff.mp h).2)
  · exact hmethod (Bool.or_eq_true_iff.mp h)
  iterate 4 exact Lexer.closedName_of_isVariable h
  · exact closedName_of_isIdentifier h

end Value

/-! ## What is put together -/

/-- A property that the empty text has, and that two texts pass on to the one they make. -/
structure Text.Composes (p : Text → Prop) : Prop where
  /-- The empty text has it. -/
  nil : p []
  /-- Two texts pass it on. -/
  append : ∀ {s t : Text}, p s → p t → p (s ++ t)

namespace Text.Composes

variable {p : Text → Prop} {s t : Text} {d e : Draft}

theorem flatten (h : Composes p) {ts : List Text} (hts : ∀ t ∈ ts, p t) : p ts.flatten := by
  induction ts with
  | nil => exact h.nil
  | cons t ts ih =>
    rw [List.forall_mem_cons] at hts
    exact h.append hts.1 (ih hts.2)

theorem ite (h : Composes p) {c : Prop} [Decidable c] (ht : p t) : p (if c then t else []) := by
  split
  · exact ht
  · exact h.nil

theorem commaSeparated (h : Composes p) (hcomma : p (lit ",")) {ts : List Text}
    (hts : ∀ t ∈ ts, p t) : p (Text.commaSeparated ts) := by
  refine h.flatten ?_
  induction ts with
  | nil => exact List.forall_mem_nil _
  | cons t ts ih =>
    rw [List.forall_mem_cons] at hts
    cases ts with
    | nil => exact List.forall_mem_singleton.mpr hts.1
    | cons u us =>
      exact List.forall_mem_cons.mpr ⟨hts.1, List.forall_mem_cons.mpr ⟨hcomma, ih hts.2⟩⟩

theorem joinInfix (h : Composes p) (hblank : p (lit " ")) {leftIsSymbol : Bool}
    {operator : String} (hoperator : p (lit operator)) (hs : p s) (ht : p t) :
    p (Text.joinInfix leftIsSymbol s operator t) :=
  h.append (h.append (h.append hs (h.ite hblank)) hoperator) ht

theorem joinLabel (h : Composes p) (hblank : p (lit " ")) (hs : p s) (ht : p t) :
    p (Text.joinLabel s t) :=
  h.append (h.append hs (h.ite hblank)) ht

/-- And so do drafts, as far as they have texts. -/
theorem build_append (h : Composes p) (hd : ∀ t, d.build = .ok t → p t)
    (he : ∀ t, e.build = .ok t → p t) : ∀ t, (d ++ e).build = .ok t → p t := by
  intro t ht
  obtain ⟨u, v, hu, hv, rfl⟩ := (Draft.build_append_eq_ok_iff d e t).mp ht
  exact h.append (hd u hu) (he v hv)

theorem build_nil (h : Composes p) : ∀ t, Draft.build [] = .ok t → p t := by
  intro t ht
  cases Draft.build_nil.symm.trans ht
  exact h.nil

theorem build_ite (h : Composes p) {c : Prop} [Decidable c] (hd : ∀ t, d.build = .ok t → p t) :
    ∀ t, (if c then d else []).build = .ok t → p t := by
  split
  · exact hd
  · exact h.build_nil

theorem build_flatten (h : Composes p) {ds : List Draft}
    (hds : ∀ d ∈ ds, ∀ t, d.build = .ok t → p t) : ∀ t, Draft.build ds.flatten = .ok t → p t := by
  induction ds with
  | nil => exact h.build_nil
  | cons d ds ih =>
    rw [List.forall_mem_cons] at hds
    exact h.build_append hds.1 (ih hds.2)

end Text.Composes

/-! ## Texts -/

/-- A text that closes what it opens.  A blank at its end that may be left out does not stand after
the mark of a name. -/
structure Text.Settled (o : Options) (t : Text) : Prop where
  /-- The characters are closed. -/
  closed : Lexer.Closed (t.spell o)
  /-- Before a blank at the end there is a character, and no mark. -/
  blank : ∀ front, t = front ++ [.optionalBlank] →
    ∃ c, front.getLast? = some (.char c) ∧ Text.isNameMark c = false

namespace Text

variable {o : Options} {s t : Text}

theorem settled_ofChars {cs : List Char} (h : Lexer.Closed cs) : (ofChars cs).Settled o := by
  refine ⟨by rwa [spell_ofChars], fun front heq => ?_⟩
  have hmem : Glyph.optionalBlank ∈ ofChars cs := by simp [heq]
  obtain ⟨c, -, hc⟩ := List.mem_map.mp hmem
  cases hc

theorem settled_nil : Settled o [] := settled_ofChars Lexer.closed_nil

theorem Settled.append (hs : s.Settled o) (ht : t.Settled o) : (s ++ t).Settled o := by
  refine ⟨by rw [spell_append]; exact hs.closed.append ht.closed, fun front heq => ?_⟩
  rcases List.eq_nil_or_concat t with rfl | ⟨init, last, rfl⟩
  · exact hs.blank front (by rwa [List.append_nil] at heq)
  · rw [List.concat_eq_append, ← List.append_assoc] at heq
    obtain ⟨rfl, hlast⟩ := List.append_inj' heq rfl
    cases hlast
    obtain ⟨c, hc, hmark⟩ := ht.blank init List.concat_eq_append
    exact ⟨c, by rw [List.getLast?_append, hc]; rfl, hmark⟩

/-- Plain characters. -/
theorem settled_lit {text : String} (h : ∀ c ∈ text.toList, Lexer.isPlain c = true) :
    (lit text).Settled o :=
  settled_ofChars (Lexer.closed_of_isPlain h)

theorem settled_separator : Settled o [.separator] := by
  refine ⟨Lexer.closed_of_isPlain ?_, fun front heq => ?_⟩
  · simp only [spell, List.flatMap_cons, List.flatMap_nil, Glyph.spell, Options.separator]
    split <;> decide
  · have hmem : Glyph.optionalBlank ∈ [Glyph.separator] := by simp [heq]
    cases List.mem_singleton.mp hmem

/-- A text between brackets. -/
theorem Settled.between (h : t.Settled o) {opening closing : Char}
    (hopening : Lexer.isOpening opening = true) (hclosing : Lexer.isClosing closing = true) :
    (ofChars [opening] ++ t ++ ofChars [closing]).Settled o := by
  refine ⟨?_, fun front heq => ?_⟩
  · simp only [spell_append, spell_ofChars]
    exact h.closed.between hopening hclosing
  · have hlast := (List.append_inj' heq rfl).2
    cases hlast

theorem Settled.grouped (h : t.Settled o) (needed : Bool) : (t.grouped needed).Settled o := by
  rw [Text.grouped]
  split
  · exact h.between rfl rfl
  · exact h

theorem composes_settled : Composes (Settled o) := ⟨settled_nil, Settled.append⟩

theorem settled_commaSeparated {ts : List Text} (h : ∀ t ∈ ts, t.Settled o) :
    (commaSeparated ts).Settled o :=
  composes_settled.commaSeparated (settled_lit (by decide)) h

theorem settled_joinInfix {leftIsSymbol : Bool} {operator : String}
    (hoperator : ∀ c ∈ operator.toList, Lexer.isPlain c = true) (hs : s.Settled o)
    (ht : t.Settled o) : (joinInfix leftIsSymbol s operator t).Settled o :=
  composes_settled.joinInfix (settled_lit (by decide)) (settled_lit hoperator) hs ht

theorem settled_joinLabel (hs : s.Settled o) (ht : t.Settled o) : (joinLabel s t).Settled o :=
  composes_settled.joinLabel (settled_lit (by decide)) hs ht

theorem settled_equals : (equals t).Settled o := by
  rw [equals]
  split <;> exact settled_lit (by decide)

/-- Whether a text is a keyword, which a blank may follow that can be left out. -/
def isKeyword (text : String) : Bool :=
  text.toList.getLast?.any (!isNameMark ·) && text.toList.all Lexer.isPlain

theorem settled_keyword {keyword : String} (h : isKeyword keyword = true) :
    (lit keyword).Settled o :=
  settled_lit (List.all_eq_true.mp (Bool.and_eq_true_iff.mp h).2)

/-- A keyword, and the blank after it that may be left out. -/
theorem settled_optionalBlank {keyword : String} (h : isKeyword keyword = true) :
    Settled o (lit keyword ++ [Glyph.optionalBlank]) := by
  obtain ⟨c, hc, hmark⟩ := (Option.any_eq_true _ _).mp (Bool.and_eq_true_iff.mp h).1
  refine ⟨?_, fun front heq => ?_⟩
  · rw [spell_append]
    refine (settled_keyword h).closed.append (Lexer.closed_of_isPlain ?_)
    simp only [spell, List.flatMap_cons, List.flatMap_nil, Glyph.spell, List.append_nil]
    split <;> decide
  · obtain ⟨rfl, -⟩ := List.append_inj' heq rfl
    refine ⟨c, ?_, by simpa using hmark⟩
    rw [lit, ofChars, List.getLast?_map, hc]
    rfl

/-- A text after a keyword. -/
theorem settled_afterKeyword {keyword : String} (hkeyword : isKeyword keyword = true)
    (ht : t.Settled o) : (lit keyword ++ t.keywordGap ++ t).Settled o := by
  refine Settled.append ?_ ht
  rw [keywordGap]
  split
  · exact settled_optionalBlank hkeyword
  · have hblank : (lit " ").Settled o := settled_lit (by decide)
    exact (settled_keyword hkeyword).append hblank

end Text

/-! ## Drafts -/

/-- If the draft has a text, then one that closes what it opens. -/
def Draft.Settled (o : Options) (d : Draft) : Prop := ∀ t, d.build = .ok t → t.Settled o

namespace Draft

variable {o : Options} {d e : Draft} {t : Text}

/-- It is enough to look at the text. -/
theorem settled_of_build (hbuild : d.build = .ok t) (h : t.Settled o) : d.Settled o := by
  intro u hu
  cases hbuild.symm.trans hu
  exact h

theorem settled_of (h : t.Settled o) : (of t).Settled o := settled_of_build (build_of t) h

theorem settled_nil : Settled o [] := Text.composes_settled.build_nil

theorem Settled.append (hd : d.Settled o) (he : e.Settled o) : (d ++ e).Settled o :=
  Text.composes_settled.build_append hd he

theorem settled_lit {text : String} (h : ∀ c ∈ text.toList, Lexer.isPlain c = true) :
    (lit text).Settled o :=
  settled_of (Text.settled_lit h)

theorem settled_separator : separator.Settled o := settled_of Text.settled_separator

theorem settled_ite {p : Prop} [Decidable p] (hd : d.Settled o) :
    (if p then d else []).Settled o :=
  Text.composes_settled.build_ite hd

theorem settled_flatten {ds : List Draft} (h : ∀ d ∈ ds, d.Settled o) : Settled o ds.flatten :=
  Text.composes_settled.build_flatten h

/-- A name that is no text is written as nothing, or it spoils the draft. -/
theorem settled_word {v : Value} (h : v.IsWord) : (word v).Settled o := by
  unfold word
  split
  · rename_i text htext
    exact settled_of (Text.settled_ofChars (h text htext).closed)
  · split
    · intro t ht
      cases ht
    · exact settled_nil

/-- A draft between brackets. -/
theorem Settled.between (h : d.Settled o) {opening closing : Char}
    (hopening : Lexer.isOpening opening = true) (hclosing : Lexer.isClosing closing = true) :
    (of (Text.ofChars [opening]) ++ d ++ of (Text.ofChars [closing])).Settled o := by
  intro t ht
  obtain ⟨_, _, hfront, hlast, rfl⟩ := (build_append_eq_ok_iff _ _ t).mp ht
  obtain ⟨_, u, hfirst, hu, rfl⟩ := (build_append_eq_ok_iff _ _ _).mp hfront
  cases (build_of _).symm.trans hfirst
  cases (build_of _).symm.trans hlast
  exact (h u hu).between hopening hclosing

theorem Settled.parenthesized (h : d.Settled o) : d.parenthesized.Settled o := h.between rfl rfl

theorem Settled.grouped (h : d.Settled o) (needed : Bool) : (d.grouped needed).Settled o := by
  rw [Draft.grouped]
  split
  · exact h.parenthesized
  · exact h

theorem settled_afterKeyword {keyword : String} (hkeyword : Text.isKeyword keyword = true)
    (ht : t.Settled o) : (lit keyword ++ afterKeyword t).Settled o := by
  refine settled_of_build (build_append (build_lit keyword)
    (build_append (build_of t.keywordGap) (build_of t))) ?_
  rw [← List.append_assoc]
  exact Text.settled_afterKeyword hkeyword ht

end Draft

/-! ## Renditions -/

/-- The roles that are played inside a file.  At its end a comment may be left open.  The sign of a
parameter is a plain one. -/
def Role.isInner : Role → Bool
  | .body file => !file
  | .parameter sign => sign.toList.all Lexer.isPlain
  | _ => true

/-- Whatever a run of the writer ends with is settled. -/
def Writer.Settles (o : Options) (w : Writer Draft) : Prop :=
  w.Ensures (fun _ => True) (Draft.Settled o)

/-- The same for a text. -/
def Writer.SettlesText (o : Options) (w : Writer Text) : Prop :=
  w.Ensures (fun _ => True) (Text.Settled o)

theorem Writer.Settles.built {o : Options} {w : Writer Draft} (h : w.Settles o) :
    w.built.SettlesText o :=
  Ensures.built h fun _ hd t ht => hd t ht

/-- What is written of a value is settled, in every role that it can play inside a file. -/
structure Rendition.Settles (o : Options) (r : Rendition) : Prop where
  /-- The value is spelled properly: where it is a comment, its text is written without a rule. -/
  spelled : r.value.isSpelled = true
  /-- What is written is settled. -/
  write : ∀ role, role.isInner = true → r.value.fits role = true → (r.write role).Settles o

/-- So is what is written of the value of a field and of the elements that it is made of. -/
structure FieldRendition.Settles (o : Options) (r : FieldRendition) : Prop where
  /-- The value. -/
  whole : r.toRendition.Settles o
  /-- The elements. -/
  each : ∀ e ∈ r.elements, e.Settles o

namespace Rendition

variable {o : Options} {r : Rendition}

theorem Settles.text (h : r.Settles o) {role : Role} (hrole : role.isInner = true)
    (hfits : r.value.fits role = true) : (r.text role).SettlesText o :=
  (h.write role hrole hfits).built

theorem Settles.operand (h : r.Settles o) (parent : Operator) (side : Side) :
    (r.operand parent side).SettlesText o :=
  (h.text rfl rfl).bind fun _ ht =>
    (Writer.ensures_lift fun _ _ => trivial).bind fun _ _ =>
      Writer.ensures_pure (ht.grouped _)

theorem Settles.memberOperand (h : r.Settles o) : r.memberOperand.SettlesText o :=
  (h.text rfl rfl).bind fun _ ht =>
    (Writer.ensures_lift fun _ _ => trivial).bind fun _ _ =>
      Writer.ensures_pure (ht.grouped _)

theorem Settles.assignedValue (h : r.Settles o) : r.assignedValue.Settles o :=
  (h.operand _ _).bind fun _ ht =>
    Writer.ensures_pure ((Draft.settled_of Text.settled_equals).append (Draft.settled_of ht))

end Rendition

/-- What is written of an absent field. -/
theorem FieldRendition.settlesText_ifPresent {o : Options} {r : FieldRendition} {w : Writer Text}
    (h : w.SettlesText o) : Writer.SettlesText o (r.ifPresent w) :=
  ensures_ifPresent Text.settled_nil fun _ => h

theorem FieldRendition.settles_ifPresent {o : Options} {r : FieldRendition} {w : Writer Draft}
    (h : w.Settles o) : Writer.Settles o (r.ifPresent w) :=
  ensures_ifPresent Draft.settled_nil fun _ => h

theorem FieldRendition.Settles.sequence {o : Options} {r : FieldRendition} (h : r.Settles o) :
    r.sequence.Ensures (fun _ => True) fun items => ∀ e ∈ items, e.Settles o :=
  ensures_sequence.imp fun _ hitems => hitems ▸ h.each

end TerseRuby
