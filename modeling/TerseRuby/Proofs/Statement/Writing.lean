import TerseRuby.Proofs.Statement.Tree

/-!
# Writing statements

The result of this file is `Stmt.IsTree.isWritten`: the tree of a program is written as the lines
of the program, with separators between them.

The rules never ask whether a construct comes out on one line or on several; they write a clause as
a header, a separator, and a body that ends with a separator unless it is empty.  So every line but
the last one of a construct is written together with the separator after it, and the proof speaks
of `Line.terminated` for the clauses and of `Line.joined` for whole statements only.  The one
exception is a condition at the end of a line: `isPostfix_eq` says that the rules choose this form
exactly where `Clause.trailing?` does.

Blocks are written with `do` and `end` throughout, because the setting asks for braces only in the
header of a loop, where there is nothing but variables here.
-/

set_option autoImplicit false

namespace TerseRuby

open Lexeme (text keyword names bound)
open Line (joined terminated)
open Writer (Yields Writes writes_pure yields_pure yields_lift yields_mapM)
open Sequence (IsStatement IsBody IsProper clause)

/-! ## The parts of headers -/

namespace Header

variable {s : Setting}

theorem yields_atom (s : Setting) {x : Name} {v : Value} (h : IsAtom x v) :
    Yields s (v.rendition.text .expression) (· = text [.word x.text]) :=
  (h.isWritten s rfl).built

theorem yields_absent {α : Type} {v : Value} (h : v = .null) (w : Writer (List α)) :
    Yields s (v.rendition.ifPresent w) (· = []) := by
  subst h
  exact yields_pure rfl

theorem build_name {x : Name} {v : Value} (h : v = x.value) :
    (Draft.word v.rendition.value).build = .ok (text [.word x.text]) := by
  rw [Value.rendition_value, h, Lexeme.text_cons, Lexeme.text_nil, List.append_nil]
  exact Draft.build_word_str _

theorem yields_constant (s : Setting) {x : Name} {v : Value} (h : IsConstant x v) :
    Yields s (v.rendition.text .expression) (· = text [.word x.text]) := by
  cases h with
  | mk name => exact Writes.built (writes_pure (build_name name))

/-- What begins with a name has a blank before it after a keyword. -/
theorem build_afterKeyword (text : String) (x : Name) (ls : List Lexeme) :
    (Draft.lit text ++ Draft.afterKeyword (Lexeme.text (.word x.text :: ls))).build =
      .ok (Lexeme.text (.word text :: .blank :: .word x.text :: ls)) := by
  have hgap : (Lexeme.text (.word x.text :: ls)).keywordGap = Lexeme.glyphs .blank := by
    have hname : (Lexeme.text [.word x.text]).keywordGap = Lexeme.glyphs .blank :=
      (Expr.var x).isPhrase_lexemes.keywordGap
    obtain ⟨c, cs, hcs⟩ := List.exists_cons_of_ne_nil
      (Literal.ne_nil_of_isIdentifier x.isIdentifier)
    simp only [Lexeme.text_cons, Lexeme.glyphs, Text.lit, hcs] at hname ⊢
    exact hname
  rw [Draft.afterKeyword, hgap]
  exact Draft.build_append (Draft.build_lit _)
    (Draft.build_append (Draft.build_of _) (Draft.build_of _))

theorem build_keyword (text : String) (x : Name) :
    (Draft.lit text ++ Draft.afterKeyword (Lexeme.text [.word x.text])).build =
      .ok (Lexeme.text (keyword text x)) :=
  build_afterKeyword text x []

/-- A variable is written in an argument list like anywhere else. -/
theorem yields_argument (s : Setting) {x : Name} {v : Value} (h : IsAtom x v) :
    Yields s (v.rendition.text .argument) (· = text [.word x.text]) := by
  have hexpression := (h.isWritten s rfl).built
  cases h with
  | @var x field name =>
    refine Writes.built (Yields.map (P := (· = text [.word x.text])) ?_ ?_)
    · refine hexpression.bind ?_
      rintro _ rfl
      refine (yields_lift (P := (· = none)) rfl rfl).bind ?_
      rintro _ rfl
      exact yields_pure rfl
    · rintro _ rfl
      exact Draft.build_of _

theorem commaSeparated_names (xs : List Name) :
    Text.commaSeparated (xs.map fun x => text [.word x.text]) = text (names xs) := by
  induction xs with
  | nil => rfl
  | cons x xs ih =>
    cases xs with
    | nil =>
      rw [Text.commaSeparated, List.map_singleton, List.intercalate_singleton]
      rfl
    | cons y ys =>
      rw [names, Lexeme.text_cons, Lexeme.text_cons, ← ih, Text.commaSeparated, List.map_cons,
        List.map_cons, List.intercalate_cons_cons, Lexeme.text_cons, Lexeme.text_nil,
        List.append_nil, List.append_assoc]
      · rfl
      · exact nofun

/-- Variables are written with commas between them. -/
theorem yields_arguments (s : Setting) {xs : List Name} {v : Value} (h : AreAtoms xs v) :
    Yields s v.rendition.sequence
      fun items => Yields s (Rules.arguments items none) (· = text (names xs)) := by
  cases h with
  | @mk vs atoms =>
    refine yields_pure ?_
    have hitems : List.Forall₂
        (fun x (r : Rendition) => Yields s (r.text .argument) (· = text [.word x.text])) xs
        (Value.itemRenditions vs ++ []) := by
      rw [Value.itemRenditions_eq_map, List.append_nil, List.forall₂_map_right_iff]
      exact atoms.imp fun x w hw => yields_argument s hw
    refine (yields_mapM hitems).bind fun parts hparts => yields_pure ?_
    have hparts : parts = xs.map fun x => text [.word x.text] := by
      rw [← List.forall₂_eq_eq_eq, List.forall₂_map_right_iff]
      exact hparts.flip
    rw [hparts, commaSeparated_names]

/-- Nothing is written for a parameter list without parameters. -/
theorem yields_parameters (s : Setting) {v : Value} (h : IsParameterless v) :
    Yields s (v.rendition.ifPresent (v.rendition.text .parameters)) (· = []) := by
  cases h with
  | absent => exact yields_pure rfl
  | @empty field lists signed =>
    simp only [List.forall_mem_cons, List.not_mem_nil, false_imp_iff, implies_true] at lists signed
    have hparameters : Yields s (Rules.parameters (.node .parameters field)
        fun f => (field f).rendition) (· = []) := by
      simp only [Rules.parameters, lists, signed]
      exact yields_pure rfl
    exact Writes.built (Yields.map hparameters fun _ ht => ht ▸ Draft.build_of _)

/-! ## Clauses of their own -/

variable {field : Field → Value} {t : Text} {p : Name}

theorem writes_loop (text : String) (hp : IsAtom p (field .predicate))
    (hbody : Writes s (clause (field .statements).rendition) t) :
    Writes s (Rules.loop text fun f => (field f).rendition)
      (Lexeme.text (keyword text p) ++ t ++ Text.lit "end") := by
  refine (Yields.withBraces (yields_atom _ hp)).bind ?_
  rintro _ rfl
  refine hbody.bind fun _ hd => writes_pure ?_
  exact Draft.build_append (Draft.build_append (build_keyword text p) hd) (Draft.build_lit _)

theorem writes_forLoop {i c : Name} (hi : IsAtom i (field .index))
    (hc : IsAtom c (field .collection))
    (hbody : Writes s (clause (field .statements).rendition) t) :
    Writes s (Rules.forLoop fun f => (field f).rendition)
      (text (forLoop i c).lexemes ++ t ++ Text.lit "end") := by
  have hindex : Writes s ((field .index).rendition.write .loopVariable) (text [.word i.text]) := by
    generalize field .index = v at hi
    cases hi with
    | @var x inner name =>
      have hkey : (inner .name).rendition.value.checkKey = .ok () := by
        rw [Value.rendition_value, name]
        exact Value.checkKey_str _
      exact (Writer.yields_declare hkey).bind fun _ _ => writes_pure (build_name name)
  have htext : text (forLoop i c).lexemes =
      Text.lit "for " ++ text [.word i.text] ++ Text.lit " in " ++ text [.word c.text] := by
    simp [lexemes, keyword, Lexeme.glyphs, Text.lit, Text.ofChars]
  refine hindex.bind fun _ hi => (Yields.withBraces (yields_atom _ hc)).bind ?_
  rintro _ rfl
  refine hbody.bind fun _ hd => writes_pure ?_
  rw [htext]
  exact Draft.build_append (Draft.build_append (Draft.build_append (Draft.build_append
    (Draft.build_append (Draft.build_lit _) hi) (Draft.build_lit _)) (Draft.build_of _)) hd)
    (Draft.build_lit _)

/-- A keyword with its blank, and a name. -/
theorem build_keyword_word (text : String) {x : Name} {d : Draft}
    (hd : d.build = .ok (Lexeme.text [.word x.text])) :
    (Draft.lit (text ++ " ") ++ d).build = .ok (Lexeme.text (keyword text x)) := by
  have htext : Lexeme.text (keyword text x) =
      Text.lit (text ++ " ") ++ Lexeme.text [.word x.text] := by
    simp [keyword, Lexeme.glyphs, Text.lit, Text.ofChars]
  rw [htext]
  exact Draft.build_append (Draft.build_lit _) hd

theorem writes_methodDef {x : Name} (hname : field .name = x.value)
    (hreceiver : field .receiver = .null) (hparameters : IsParameterless (field .parameters))
    (hbody : Writes s (clause (field .body).rendition) t) :
    Writes s (Rules.methodDef fun f => (field f).rendition)
      (text (methodDef x).lexemes ++ t ++ Text.lit "end") := by
  have hscope : Writes s (Writer.inNewScope do
      let names ← (field .parameters).rendition.ifPresent
        ((field .parameters).rendition.text .parameters)
      let body ← clause (field .body).rendition
      return Draft.grouped (!names.isEmpty) (Draft.of names) ++ body) t := by
    refine Yields.withLocals _ ((yields_parameters s hparameters).bind ?_)
    rintro _ rfl
    exact hbody.bind fun _ hd => writes_pure (Draft.build_append (Draft.build_of []) hd)
  refine (yields_absent hreceiver _).bind ?_
  rintro _ rfl
  refine hscope.bind fun _ hd => writes_pure ?_
  rw [List.append_nil]
  exact Draft.build_append (Draft.build_append (build_keyword_word "def" (build_name hname)) hd)
    (Draft.build_lit _)

theorem writes_moduleDef {x : Name} (hpath : IsConstant x (field .constantPath))
    (hbody : Writes s (clause (field .body).rendition) t) :
    Writes s (Rules.moduleDef fun f => (field f).rendition)
      (text (moduleDef x).lexemes ++ t ++ Text.lit "end") := by
  refine (yields_constant s hpath).bind ?_
  rintro _ rfl
  refine (Yields.withLocals _ hbody).bind fun _ hd => writes_pure ?_
  exact Draft.build_append (Draft.build_append (build_keyword_word "module" (Draft.build_of _)) hd)
    (Draft.build_lit _)

theorem writes_classDef {x : Name} (hpath : IsConstant x (field .constantPath))
    (hsuperclass : field .superclass = .null)
    (hbody : Writes s (clause (field .body).rendition) t) :
    Writes s (Rules.classDef fun f => (field f).rendition)
      (text (classDef x).lexemes ++ t ++ Text.lit "end") := by
  refine (yields_constant s hpath).bind ?_
  rintro _ rfl
  refine (yields_absent hsuperclass _).bind ?_
  rintro _ rfl
  refine (Yields.withLocals _ hbody).bind fun _ hd => writes_pure ?_
  rw [List.append_nil]
  exact Draft.build_append (Draft.build_append (build_keyword_word "class" (Draft.build_of _)) hd)
    (Draft.build_lit _)

/-- A block without parameters is written with `do` and `end`. -/
theorem writes_block (hs : s.braceBlocks = false)
    (hparameters : IsParameterless (field .parameters))
    (hbody : Writes s (clause (field .body).rendition) t) :
    Writes s (Rules.block fun f => (field f).rendition)
      (Text.lit " do" ++ t ++ Text.lit "end") := by
  have hsame : { s with braceBlocks := false } = s := by rw [← hs]
  refine Yields.withLocals _ ((yields_parameters s hparameters).bind ?_)
  rintro _ rfl
  refine Writer.yields_read.bind ?_
  rintro _ rfl
  rw [hs]
  refine (Yields.withBraces (hsame.symm ▸ hbody)).bind fun _ hd => writes_pure ?_
  exact Draft.build_append (Draft.build_append (Draft.build_lit _) hd) (Draft.build_lit _)

theorem writes_call {r x : Name} {block : Field → Value} (hs : s.braceBlocks = false)
    (hreceiver : IsAtom r (field .receiver)) (hname : field .name = x.value)
    (harguments : field .arguments = .empty)
    (hdot : field .safeNavigation = .scalar (.bool false))
    (hattached : field .block = .node .block block)
    (hparameters : IsParameterless (block .parameters))
    (hbody : Writes s (clause (block .body).rendition) t) :
    Writes s (Rules.call fun f => (field f).rendition)
      (text (call r x).lexemes ++ t ++ Text.lit "end") := by
  have htext : text (call r x).lexemes ++ t ++ Text.lit "end" =
      text (Expr.send (.var r) x).lexemes ++ (Text.lit " do" ++ t ++ Text.lit "end") := by
    simp [lexemes, Expr.lexemes, Expr.operator?, Lexeme.grouped, Lexeme.glyphs, Text.lit,
      Text.ofChars]
  rw [htext]
  refine (yields_lift (P := (· = .plain)) ?_ rfl).bind ?_
  · rw [Expr.IsTree.of_rendition]
    exact CallShape.of_name hreceiver.isNull hname
  · rintro _ rfl
    refine Expr.IsTree.writes_plainCall hreceiver (hreceiver.isWritten s rfl) hname harguments hdot
      (by rw [hattached]; rfl) ?_
    rw [hattached]
    exact writes_block hs hparameters hbody

theorem writes_otherwise (hbody : Writes s (clause (field .statements).rendition) t) :
    Writes s (Rules.elseBranch (.node .elseBranch field) fun f => (field f).rendition)
      (text otherwise.lexemes ++ t) :=
  Writes.after (Draft.build_lit _) hbody

theorem writes_ensured (hbody : Writes s (clause (field .statements).rendition) t) :
    Writes s (Rules.ensureClause (.node .ensureClause field) fun f => (field f).rendition)
      (text ensured.lexemes ++ t) :=
  Writes.after (Draft.build_lit _) hbody

theorem writes_whenClause {x : Name} {xs : List Name}
    (hconditions : AreAtoms (x :: xs) (field .conditions))
    (hbody : Writes s (clause (field .statements).rendition) t) :
    Writes s (Rules.whenClause (.node .whenClause field) fun f => (field f).rendition)
      (text (whenClause x xs).lexemes ++ t) := by
  obtain ⟨ls, hls⟩ : ∃ ls, names (x :: xs) = .word x.text :: ls := by cases xs <;> exact ⟨_, rfl⟩
  refine (yields_arguments s hconditions).bind fun items hitems => hitems.bind ?_
  rintro _ rfl
  rw [lexemes, hls]
  exact Writes.after (build_afterKeyword "when" x ls) hbody

theorem AreAtoms.isTrue {xs : List Name} {v : Value} (h : AreAtoms xs v) :
    v.isTrue = !xs.isEmpty := by
  cases h with
  | mk atoms => cases atoms <;> rfl

/-- The variable that an exception is bound to is written after an arrow. -/
theorem writes_bound (s : Setting) {r : Option Name} {v : Value} (h : v = r.elim .null Name.value) :
    Writes s (v.rendition.ifPresent do
      Writer.declare v.rendition.value
      return Draft.lit "=>" ++ Draft.word v.rendition.value) (text (bound r)) := by
  cases r with
  | none =>
    subst h
    exact writes_pure Draft.build_nil
  | some x =>
    have hkey : v.rendition.value.checkKey = .ok () := by
      rw [Value.rendition_value, h]
      exact Value.checkKey_str _
    have hpresent : v.rendition.value.isNull = false := by
      rw [Value.rendition_value, h]
      rfl
    rw [FieldRendition.ifPresent, hpresent]
    refine (Writer.yields_declare hkey).bind fun _ _ => writes_pure ?_
    exact Draft.build_append (Draft.build_lit _) (build_name h)

theorem writes_rescue {xs : List Name} {r : Option Name}
    (hexceptions : AreAtoms xs (field .exceptions))
    (hreference : field .reference = r.elim .null Name.value)
    (hbody : Writes s (clause (field .statements).rendition) t) :
    Writes s (Rules.rescueClause (.node .rescueClause field) fun f => (field f).rendition)
      (text (rescue xs r).lexemes ++ t) := by
  have hbound := writes_bound s hreference
  have hafter {ls : List Lexeme} {d : Draft} (hd : d.build = .ok (text ls)) : Writes s (do
      let reference ← (field .reference).rendition.ifPresent do
        Writer.declare (field .reference).rendition.value
        return Draft.lit "=>" ++ Draft.word (field .reference).rendition.value
      return Draft.lit "rescue" ++ d ++ reference ++ (← clause (field .statements).rendition))
      (text (.word "rescue" :: (ls ++ bound r)) ++ t) := by
    rw [Lexeme.text_cons, Lexeme.text_append, ← List.append_assoc]
    refine hbound.bind fun _ hr => hbody.bind fun _ hb => writes_pure ?_
    exact Draft.build_append (Draft.build_append (Draft.build_append (Draft.build_lit _) hd) hr) hb
  have htrue := hexceptions.isTrue
  unfold Rules.rescueClause
  dsimp only
  rw [Value.rendition_value, htrue]
  cases xs with
  | nil => exact hafter Draft.build_nil
  | cons x xs =>
    refine (yields_arguments s hexceptions).bind fun items hitems => hitems.bind ?_
    rintro _ rfl
    have hnames : (Draft.lit " " ++ Draft.of (text (names (x :: xs)))).build =
        .ok (text (.blank :: names (x :: xs))) :=
      Draft.build_append (Draft.build_lit _) (Draft.build_of _)
    exact hafter hnames

/-- What closes the text of a clause with the header: a construct has its `end`, and any other
clause leaves it to the construct. -/
def closing (h : Header) : Text := if h.isOpening then Text.lit "end" else []

/-- **A clause is written as its header and its body.** -/
theorem Encloses.writes {h : Header} {v b : Value} (henc : h.Encloses v b)
    (hs : s.braceBlocks = false) (hbody : Writes s (clause b.rendition) t) :
    Writes s (v.rendition.write h.role) (text h.lexemes ++ t ++ h.closing) := by
  have hbranch {w : Writer Draft} {u : Text} (hw : Writes s w u) : Writes s w (u ++ []) := by
    rwa [List.append_nil]
  cases henc with
  | whileLoop predicate => exact writes_loop "while" predicate hbody
  | untilLoop predicate => exact writes_loop "until" predicate hbody
  | forLoop index collection => exact writes_forLoop index collection hbody
  | methodDef name receiver parameters => exact writes_methodDef name receiver parameters hbody
  | moduleDef path => exact writes_moduleDef path hbody
  | classDef path superclass => exact writes_classDef path superclass hbody
  | call receiver name arguments dot attached parameters =>
    exact writes_call hs receiver name arguments dot attached parameters hbody
  | otherwise => exact hbranch (writes_otherwise hbody)
  | whenClause conditions => exact hbranch (writes_whenClause conditions hbody)
  | rescue exceptions reference => exact hbranch (writes_rescue exceptions reference hbody)
  | ensured => exact hbranch (writes_ensured hbody)

/-- As a statement, a construct is written like anywhere else. -/
theorem Encloses.writes_statement {h : Header} {v b : Value} (henc : h.Encloses v b)
    (hopening : h.isOpening = true) (hv : Writes s (v.rendition.write .expression) t) :
    Writes s (v.rendition.write .statement) t := by
  cases henc with
  | @call r x field block receiver name arguments dot attached parameters =>
    have hbrace : (Value.node .call field).startsWithBrace = .ok false := by
      rw [Value.startsWithBrace, receiver.isNull, if_neg Bool.false_ne_true,
        CallShape.unary?_name name]
      exact receiver.startsWithBrace
    exact Rules.writes_callStatement receiver.isNull (Rules.writes_plainStatement hbrace hv)
  | otherwise => exact absurd hopening Bool.false_ne_true
  | whenClause conditions => exact absurd hopening Bool.false_ne_true
  | rescue exceptions reference => exact absurd hopening Bool.false_ne_true
  | ensured => exact absurd hopening Bool.false_ne_true
  | _ => exact Rules.writes_plainStatement rfl hv

end Header

/-! ## Conditions at the end of a line -/

namespace Stmt

variable {s : Setting} {field : Field → Value} {p : Name} {ss : List Stmt} {cs : List Clause}

theorem IsTree.forall₂ {vs : List Value} (h : IsTree (.statements ss) (.seq vs)) :
    List.Forall₂ (fun st w => IsTree (.statement st) w) ss vs := by
  induction ss generalizing vs with
  | nil => cases h; exact .nil
  | cons st ss ih =>
    cases h with
    | cons head tail => exact .cons head (ih tail)

theorem forall_isProper {vs : List Value}
    (h : List.Forall₂ (fun st w => IsTree (.statement st) w) ss vs) : ∀ w ∈ vs, IsProper w := by
  induction h with
  | nil => exact nofun
  | cons hst _ ih => exact List.forall_mem_cons.mpr ⟨hst.isProper, ih⟩

theorem onlyStatement?_eq {v : Value} {vs : List Value} (shape : IsBody v vs)
    (hproper : ∀ w ∈ vs, IsProper w) :
    Rules.onlyStatement? s v = .ok (match vs with | [w] => some w | _ => none) := by
  have hkept : Sequence.kept s false id vs = vs := Sequence.kept_eq s false hproper
  rw [Rules.onlyStatement?, shape.bodyStatements]
  simp only [bind, Except.bind, hkept]
  match vs with
  | [] => rfl
  | [w] =>
    have hw : w.inGroup Kind.isTrivia = false := hproper w List.mem_cons_self
    simp only [hw]
    rfl
  | _ :: _ :: _ => rfl

/-- **The rules put a condition at the end of the line** exactly where the lines of a construct have
it there. -/
theorem isPostfix_eq (negated : Bool) (hp : IsAtom p (field .predicate))
    (hbody : IsTree (.body ss) (field .statements))
    (halternate : (field .alternate).isNull = cs.isEmpty) :
    Rules.isPostfix s field =
      .ok (Clause.trailing? (⟨.conditional negated p, ss⟩ :: cs)).isSome := by
  cases hbody with
  | @body _ _ vs shape statements =>
    have hvs := statements.forall₂
    rw [Rules.isPostfix, halternate, onlyStatement?_eq shape (forall_isProper hvs)]
    cases cs with
    | cons c cs =>
      have hnone : Clause.trailing? (⟨.conditional negated p, ss⟩ :: c :: cs) = none := by
        cases negated <;> rw [Clause.trailing?] <;> exact nofun
      rw [hnone]
      rfl
    | nil =>
      cases hvs with
      | nil => cases negated <;> rfl
      | @cons st w ss ws hst hss =>
        cases hss with
        | cons _ _ => cases negated <;> cases st <;> rfl
        | nil =>
          cases st with
          | atom x =>
            cases hst with
            | atom atom =>
              obtain ⟨hblock, -⟩ := checkBlock_atom atom
              obtain ⟨hpredicate, hassigns⟩ := checkBlock_atom hp
              simp only [bind, Except.bind, hblock, hpredicate, hassigns]
              cases negated <;> rfl
          | construct clauses =>
            simp only [bind, Except.bind, hst.checkBlock_construct]
            cases negated <;> rfl

/-- The keyword of a condition. -/
def conditionWord (negated : Bool) : String := if negated then "unless" else "if"

theorem lexemes_conditional (negated : Bool) (p : Name) :
    (Header.conditional negated p).lexemes = keyword (conditionWord negated) p := by
  cases negated <;> rfl

theorem trailing?_eq_some {negated : Bool} {line : Line}
    (h : Clause.trailing? (⟨.conditional negated p, ss⟩ :: cs) = some line) :
    ∃ x, ss = [.atom x] ∧ line = .trailing x negated p := by
  obtain ⟨x, negated', p', hclauses, rfl⟩ := Clause.eq_of_trailing? h
  cases negated <;> cases negated' <;> cases hclauses <;> exact ⟨x, rfl, rfl⟩

theorem writes_trailing (negated : Bool) {x : Name} (hp : IsAtom p (field .predicate))
    (hbody : IsTree (.body [.atom x]) (field .statements)) :
    Writes s (Rules.postfixConditional (conditionWord negated) fun f => (field f).rendition)
      (text (Line.trailing x negated p).lexemes) := by
  have hwrites : Writes s ((field .statements).rendition.write (.body false))
      (text [.word x.text]) := by
    cases hbody with
    | body shape statements =>
      obtain _ | ⟨hatom, _ | _⟩ := statements.forall₂
      have hproper := hatom.isProper
      cases hatom with
      | atom atom =>
        have hone := shape.writes false (.cons ⟨hproper, atom.writes_statement s rfl⟩ .nil)
        rwa [List.intercalate_singleton] at hone
  have htext : text (Line.trailing x negated p).lexemes =
      text [.word x.text] ++ Text.lit " " ++ text (keyword (conditionWord negated) p) := by
    rw [Line.lexemes, lexemes_conditional, Lexeme.text_cons, Lexeme.text_cons, Lexeme.text_cons,
      Lexeme.text_nil, List.append_nil, List.append_assoc]
    rfl
  rw [htext]
  refine hwrites.bind fun _ hd => (Header.yields_atom s hp).bind ?_
  rintro _ rfl
  refine writes_pure ?_
  rw [List.append_assoc]
  exact Draft.build_append (Draft.build_append hd (Draft.build_lit _)) (Header.build_keyword _ p)

/-! ## Conditionals -/

theorem writes_conditional (text : String) {t u : Text} (hp : IsAtom p (field .predicate))
    (hbody : Writes s (clause (field .statements).rendition) t)
    (halternate : Writes s ((field .alternate).rendition.write .alternate) u) :
    Writes s (Rules.conditional text fun f => (field f).rendition)
      (Lexeme.text (keyword text p) ++ t ++ u) := by
  refine (Header.yields_atom s hp).bind ?_
  rintro _ rfl
  refine hbody.bind fun _ hd => halternate.bind fun _ he => writes_pure ?_
  exact Draft.build_append (Draft.build_append (Header.build_keyword text p) hd) he

theorem writes_unlessThen {t u : Text} (hp : IsAtom p (field .predicate))
    (hbody : Writes s (clause (field .statements).rendition) t)
    (halternate : Writes s ((field .alternate).rendition.write .elseBranch) u) :
    Writes s (Rules.unlessThen fun f => (field f).rendition)
      (text (keyword "unless" p) ++ t ++ u ++ Text.lit "end") := by
  refine (Header.yields_atom s hp).bind ?_
  rintro _ rfl
  refine hbody.bind fun _ hd => halternate.bind fun _ he => writes_pure ?_
  exact Draft.build_append (Draft.build_append
    (Draft.build_append (Header.build_keyword _ p) hd) he) (Draft.build_lit _)

theorem text_joined_close (lines : List Line) :
    text (joined (lines ++ [.close])) = text (terminated lines) ++ Text.lit "end" := by
  rw [Line.joined_append (List.cons_ne_nil _ _), Line.joined_singleton, Lexeme.text_append]
  rfl

/-- A conditional as a statement takes one line or several. -/
theorem writes_conditionalStatement (negated : Bool) {kind : Kind}
    (hp : IsAtom p (field .predicate)) (hbody : IsTree (.body ss) (field .statements))
    (halternate : (field .alternate).isNull = cs.isEmpty)
    (hbrace : (Value.node kind field).startsWithBrace = .ok false)
    (hwrites : Writes s ((Value.node kind field).rendition.write .expression)
      (text (terminated (clauseLines (⟨.conditional negated p, ss⟩ :: cs))) ++ Text.lit "end")) :
    Writes s (Rules.conditionalStatement (conditionWord negated) (.node kind field)
        fun f => (field f).rendition)
      (text (joined (Stmt.construct (⟨.conditional negated p, ss⟩ :: cs)).lines)) := by
  have hpostfix : Rules.isPostfix s (fun f => (field f).rendition.value) =
      .ok (Clause.trailing? (⟨.conditional negated p, ss⟩ :: cs)).isSome := by
    simp only [Value.rendition_value]
    exact isPostfix_eq negated hp hbody halternate
  refine Writer.yields_read.bind ?_
  rintro _ rfl
  refine (yields_lift (P := (· = Option.isSome _)) hpostfix rfl).bind ?_
  rintro _ rfl
  rw [Stmt.lines]
  cases htrailing : Clause.trailing? (⟨.conditional negated p, ss⟩ :: cs) with
  | none =>
    rw [text_joined_close]
    exact Rules.writes_plainStatement hbrace hwrites
  | some line =>
    obtain ⟨x, rfl, rfl⟩ := trailing?_eq_some htrailing
    rw [Line.joined_singleton]
    exact writes_trailing negated hp hbody

/-! ## Case distinctions and exceptions -/

/-- The values of a sequence are written in the role one after the other, as the text. -/
def WritesRow (s : Setting) (role : Role) (v : Value) (t : Text) : Prop :=
  Yields s v.rendition.sequence fun items =>
    Yields s (items.mapM (·.write role)) fun ds => Draft.build ds.flatten = .ok t

theorem writesRow_nil (s : Setting) (role : Role) : WritesRow s role (.seq []) [] :=
  yields_pure (yields_pure Draft.build_nil)

theorem WritesRow.cons {role : Role} {v : Value} {vs : List Value} {t u : Text}
    (hv : Writes s (v.rendition.write role) t) (hvs : WritesRow s role (.seq vs) u) :
    WritesRow s role (.seq (v :: vs)) (t ++ u) := by
  obtain ⟨_, _, ⟨⟩, hitems⟩ := hvs []
  refine yields_pure ?_
  rw [Value.rendition, Value.itemRenditions, List.mapM_cons]
  refine hv.bind fun d hd => hitems.bind fun ds hds => yields_pure ?_
  rw [List.flatten_cons]
  exact Draft.build_append hd hds

/-- If the value is present, it is written in the role as the text, and otherwise nothing is. -/
def WritesOption (s : Setting) (role : Role) (v : Value) (t : Text) : Prop :=
  Writes s (v.rendition.ifPresent (v.rendition.write role)) t

theorem writesOption_null (s : Setting) (role : Role) : WritesOption s role .null [] :=
  writes_pure Draft.build_nil

theorem WritesOption.elseBranch {v : Value} {t : Text} (h : WritesOption s .elseBranch v t) :
    Writes s (v.rendition.write .elseBranch) t := by
  by_cases hnull : v = .null
  · subst hnull
    exact h
  · have hpresent : v.isNull = false := by
      cases v with
      | scalar c => cases c <;> first | rfl | exact absurd rfl hnull
      | _ => rfl
    rwa [WritesOption, FieldRendition.ifPresent, Value.rendition_value, hpresent] at h

theorem writes_caseOf {x : Option Name} {t u : Text}
    (hsubject : Header.IsSubject x (field .predicate))
    (hbranches : WritesRow s .whenClause (field .conditions) t)
    (hotherwise : WritesOption s .elseBranch (field .alternate) u) :
    Writes s (Rules.caseOf fun f => (field f).rendition)
      (text (Header.caseOf x).lexemes ++ [.separator] ++ t ++ u ++ Text.lit "end") := by
  have hhead : Yields s ((field .predicate).rendition.ifPresent
      (Draft.afterKeyword <$> (field .predicate).rendition.text .expression))
      fun d => Draft.build (Draft.lit "case" ++ d) = .ok (text (Header.caseOf x).lexemes) := by
    generalize field .predicate = v at hsubject
    cases hsubject with
    | absent => exact yields_pure (Draft.build_append (Draft.build_lit _) Draft.build_nil)
    | @present x v atom =>
      rw [FieldRendition.ifPresent, Value.rendition_value, atom.isNull]
      refine (Header.yields_atom s atom).map ?_
      rintro _ rfl
      exact Header.build_keyword "case" x
  refine hhead.bind fun _ hd => hbranches.bind fun _ hitems => hitems.bind fun _ hws =>
    hotherwise.elseBranch.bind fun _ he => writes_pure ?_
  exact Draft.build_append (Draft.build_append (Draft.build_append
    (Draft.build_append hd Draft.build_separator) hws) he) (Draft.build_lit _)

theorem writes_beginBlock {t u w x : Text}
    (hbody : Writes s (clause (field .statements).rendition) t)
    (hrescues : WritesRow s .rescueClause (field .rescueClauses) u)
    (hotherwise : WritesOption s .elseBranch (field .elseClause) w)
    (hensured : WritesOption s .ensureClause (field .ensureClause) x) :
    Writes s (Rules.beginBlock fun f => (field f).rendition)
      (text Header.beginBlock.lexemes ++ t ++ u ++ w ++ x ++ Text.lit "end") := by
  refine hbody.bind fun _ hd => hrescues.bind fun _ hitems => hitems.bind fun _ hrs =>
    hotherwise.elseBranch.bind fun _ hu => hensured.bind fun _ hw => writes_pure ?_
  exact Draft.build_append (Draft.build_append (Draft.build_append (Draft.build_append
    (Draft.build_append (Draft.build_lit _) hd) hrs) hu) hw) (Draft.build_lit _)

/-! ## All parts of a program -/

/-- How a part of a program is written.  A statement has no separator after it, and all other parts
have one after each of their lines. -/
def Part.IsWritten (s : Setting) : Part → Value → Prop
  | .statement st, v => IsStatement s v (text (joined st.lines))
  | .statements ss, v =>
    List.Forall₂ (IsStatement s) v.elements (ss.map fun st => text (joined st.lines))
  | .body ss, v =>
    Writes s (Sequence.clause v.rendition) (text (.separator :: terminated (bodyLines ss)))
  | .clause c, v =>
    Writes s (v.rendition.write c.header.role) (text (terminated c.lines) ++ c.header.closing)
  | .row role cs, v =>
    role ≠ .expression → WritesRow s role v (text (terminated (clauseLines cs)))
  | .option role cs, v =>
    role ≠ .expression → WritesOption s role v (text (terminated (clauseLines cs)))
  | .alternate cs, v =>
    Writes s (v.rendition.write .alternate) (text (terminated (clauseLines cs)))

theorem flatMap_joined (ss : List Stmt) :
    (ss.map fun st => text (joined st.lines)).flatMap (· ++ [.separator]) =
      text (terminated (bodyLines ss)) := by
  induction ss with
  | nil =>
    rw [bodyLines]
    rfl
  | cons st ss ih =>
    rw [List.map_cons, List.flatMap_cons, ih, bodyLines, Line.terminated_append,
      ← Line.joined_concat_separator st.lines_ne_nil, Lexeme.text_append, Lexeme.text_append]
    rfl

theorem text_clause (h : Header) (ss : List Stmt) :
    text (terminated (Clause.mk h ss).lines) =
      text h.lexemes ++ text (.separator :: terminated (bodyLines ss)) := by
  rw [Clause.lines, Line.terminated_cons, List.append_assoc, Lexeme.text_append]
  rfl

theorem text_clauseLines (c : Clause) (cs : List Clause) :
    text (terminated (clauseLines (c :: cs))) =
      text (terminated c.lines) ++ text (terminated (clauseLines cs)) := by
  rw [clauseLines, Line.terminated_append, Lexeme.text_append]

theorem text_clauseLines_singleton (c : Clause) :
    text (terminated (clauseLines [c])) = text (terminated c.lines) := by
  rw [text_clauseLines, clauseLines]
  exact List.append_nil _

theorem role_of_isOpening {h : Header} (hopening : h.isOpening = true) : h.role = .expression := by
  cases h <;> first | rfl | exact nomatch hopening

theorem closing_eq_nil {h : Header} (hrole : h.role ≠ .expression) : h.closing = [] := by
  cases h <;> first | rfl | exact absurd rfl hrole

/-- A construct whose condition does not come last ends with an `end` on a line of its own. -/
theorem text_construct {cs : List Clause} (h : Clause.trailing? cs = none) :
    text (joined (Stmt.construct cs).lines) =
      text (terminated (clauseLines cs)) ++ Text.lit "end" := by
  rw [Stmt.lines, h]
  exact text_joined_close _

/-- The field for what comes otherwise is empty if there are no further clauses. -/
theorem IsTree.isNull_option {role : Role} {v : Value} (h : IsTree (.option role cs) v) :
    v.isNull = cs.isEmpty := by
  cases h with
  | absent => rfl
  | present same clause =>
    cases clause with
    | clause header body => cases header <;> rfl

theorem IsTree.isNull_alternate {v : Value} (h : IsTree (.alternate cs) v) :
    v.isNull = cs.isEmpty := by
  cases h with
  | elsif predicate body alternate => rfl
  | noElsif otherwise => exact otherwise.isNull_option

/-- **The tree of a program is written as its lines.** -/
theorem IsTree.isWritten {part : Part} {v : Value} (h : IsTree part v)
    (hs : s.braceBlocks = false) : part.IsWritten s v := by
  induction h with
  | @atom x v atom =>
    have hproper : IsProper v := (IsTree.atom atom).isProper
    have htext : text (joined (Stmt.atom x).lines) = text (Expr.var x).lexemes := by
      rw [Stmt.lines, Line.joined_singleton]
      rfl
    exact ⟨hproper, htext ▸ atom.writes_statement s rfl⟩
  | @enclosed c v opening clause ih =>
    refine ⟨(IsTree.enclosed opening clause).isProper, ?_⟩
    cases clause with
    | @clause h ss _ b header body =>
      have hopening : h.isOpening = true := opening
      have htrailing : Clause.trailing? [⟨h, ss⟩] = none := by cases header <;> rfl
      have htext : text (joined (Stmt.construct [⟨h, ss⟩]).lines) =
          text (terminated (Clause.mk h ss).lines) ++ h.closing := by
        rw [text_construct htrailing, text_clauseLines_singleton, Header.closing, if_pos hopening]
      rw [htext]
      exact header.writes_statement opening (role_of_isOpening hopening ▸ ih)
  | @ifThen p ss cs field predicate body alternate ihbody ihalternate =>
    refine ⟨rfl, writes_conditionalStatement false predicate body alternate.isNull_alternate rfl ?_⟩
    rw [text_clauseLines, text_clause]
    have hwrites := writes_conditional "if" predicate ihbody ihalternate
    exact hwrites.bind fun _ hd => writes_pure (Draft.build_append hd (Draft.build_lit _))
  | @unlessThen p ss cs field predicate body alternate ihbody ihalternate =>
    refine ⟨rfl, writes_conditionalStatement true predicate body alternate.isNull_option rfl ?_⟩
    rw [text_clauseLines, text_clause]
    exact writes_unlessThen predicate ihbody (ihalternate (by decide)).elseBranch
  | @caseOf x ws os field subject branches otherwise ihbranches ihotherwise =>
    have htext : text (joined (Stmt.construct (⟨.caseOf x, []⟩ :: (ws ++ os))).lines) =
        text (Header.caseOf x).lexemes ++ [.separator] ++ text (terminated (clauseLines ws)) ++
          text (terminated (clauseLines os)) ++ Text.lit "end" := by
      rw [text_construct rfl, text_clauseLines, text_clause, clauseLines_append,
        Line.terminated_append, Lexeme.text_append, ← List.append_assoc, bodyLines]
      rfl
    refine ⟨rfl, Rules.writes_plainStatement rfl ?_⟩
    rw [htext]
    exact writes_caseOf subject (ihbranches (by decide)) (ihotherwise (by decide))
  | @beginBlock ss rs os es field body rescues otherwise ensured ihbody ihrescues ihotherwise
      ihensured =>
    have htext : text (joined (Stmt.construct (⟨.beginBlock, ss⟩ :: (rs ++ (os ++ es)))).lines) =
        text Header.beginBlock.lexemes ++ text (.separator :: terminated (bodyLines ss)) ++
          text (terminated (clauseLines rs)) ++ text (terminated (clauseLines os)) ++
          text (terminated (clauseLines es)) ++ Text.lit "end" := by
      rw [text_construct rfl, text_clauseLines, text_clause, clauseLines_append, clauseLines_append,
        Line.terminated_append, Line.terminated_append, Lexeme.text_append, Lexeme.text_append]
      simp only [List.append_assoc]
    refine ⟨rfl, Rules.writes_plainStatement rfl ?_⟩
    rw [htext]
    exact writes_beginBlock ihbody (ihrescues (by decide)) (ihotherwise (by decide))
      (ihensured (by decide))
  | nil => exact .nil
  | cons head tail ihhead ihtail => exact .cons ihhead ihtail
  | @body ss v vs shape statements ih =>
    have hwrites := shape.writes_clause ih
    rwa [flatMap_joined] at hwrites
  | @clause h ss v b header body ih =>
    change Writes s _ (text (terminated (Clause.mk h ss).lines) ++ h.closing)
    rw [text_clause]
    exact header.writes hs ih
  | @rowNil role => exact fun _ => writesRow_nil s role
  | @rowCons role c cs v vs same head tail ihhead ihtail =>
    intro hrole
    subst same
    rw [text_clauseLines]
    have hhead : Writes s (v.rendition.write c.header.role) _ := ihhead
    rw [closing_eq_nil hrole, List.append_nil] at hhead
    exact WritesRow.cons hhead (ihtail hrole)
  | @absent role => exact fun _ => writesOption_null s role
  | @present role c v same clause ih =>
    intro hrole
    subst same
    have hpresent : v.isNull = false := (IsTree.present rfl clause).isNull_option
    have hwrites : Writes s (v.rendition.write c.header.role) _ := ih
    rw [closing_eq_nil hrole, List.append_nil] at hwrites
    rw [text_clauseLines_singleton, WritesOption, FieldRendition.ifPresent, Value.rendition_value,
      hpresent]
    exact hwrites
  | @elsif p ss cs field predicate body alternate ihbody ihalternate =>
    change Writes s _ _
    rw [text_clauseLines, text_clause]
    exact writes_conditional "elsif" predicate ihbody ihalternate
  | @noElsif cs v otherwise ih =>
    have helse := (ih (by decide)).elseBranch
    cases otherwise with
    | absent => exact helse
    | present same clause =>
      cases clause with
      | clause header body => cases header <;> exact helse

end Stmt
end TerseRuby
