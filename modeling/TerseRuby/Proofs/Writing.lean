import TerseRuby.Proofs.Rendering.Outcome
import Mathlib.Data.List.Forall2

/-!
# Writers that do not fail

Most statements about rendered text say the same three things of some writer: in a setting, it does
not fail, whatever local variables are known; what it returns has a property; and it may have
entered further variables, which do not matter.  `Writer.Yields s w P` says this, and
the lemmas here say it of the operations that writers are built from, so that a statement about a
rule follows the text of the rule.

A rule returns a draft, of which only the text counts.  `Writer.Writes s w t` is `Yields` for "the
draft has the text `t`", and `Writes.built` leads from there to the writers that return a text.

Where a writer can fail for one reason only, `Writer.Needs` says what has to be the case for it not
to, and the same is followed through the rules.
-/

set_option autoImplicit false

namespace TerseRuby

/-! ## Drafts that have a text -/

namespace Draft

theorem build_append {d e : Draft} {t u : Text} (hd : d.build = .ok t) (he : e.build = .ok u) :
    (d ++ e).build = .ok (t ++ u) :=
  (build_append_eq_ok_iff d e (t ++ u)).2 ⟨t, u, hd, he, rfl⟩

@[simp] theorem build_lit (s : String) : (lit s).build = .ok (Text.lit s) := build_of _

@[simp] theorem build_separator : separator.build = .ok [.separator] := build_of _

@[simp] theorem build_word_str (s : String) :
    (word (.scalar (.str s))).build = .ok (Text.lit s) := build_of _

end Draft

namespace Writer

variable {α β : Type} {s : Setting}

/-! ## Writers that return something with a property -/

/-- In the given setting the writer never fails, and what it returns has the property `P`. -/
def Yields (s : Setting) (w : Writer α) (P : α → Prop) : Prop :=
  ∀ locals, ∃ a locals', (w.run s).run locals = .ok (a, locals') ∧ P a

theorem yields_pure {a : α} {P : α → Prop} (h : P a) : Yields s (pure a) P :=
  fun locals => ⟨a, locals, rfl, h⟩

theorem Yields.mono {w : Writer α} {P Q : α → Prop} (hw : Yields s w P) (h : ∀ a, P a → Q a) :
    Yields s w Q := by
  intro locals
  obtain ⟨a, locals', hrun, ha⟩ := hw locals
  exact ⟨a, locals', hrun, h a ha⟩

theorem Yields.bind {w : Writer α} {f : α → Writer β} {P : α → Prop} {Q : β → Prop}
    (hw : Yields s w P) (hf : ∀ a, P a → Yields s (f a) Q) : Yields s (w >>= f) Q := by
  intro locals
  obtain ⟨a, locals', hrun, ha⟩ := hw locals
  obtain ⟨b, locals'', hrun', hb⟩ := hf a ha locals'
  refine ⟨b, locals'', ?_, hb⟩
  rw [ReaderT.run_bind, StateT.run_bind, hrun]
  exact hrun'

theorem Yields.map {w : Writer α} {f : α → β} {P : α → Prop} {Q : β → Prop} (hw : Yields s w P)
    (hf : ∀ a, P a → Q (f a)) : Yields s (f <$> w) Q := by
  rw [map_eq_pure_bind]
  exact hw.bind fun a ha => yields_pure (hf a ha)

/-- Writers one after the other, each of them with a property that depends on something else. -/
theorem yields_mapM {γ : Type} {f : α → Writer β} {P : γ → β → Prop} {cs : List γ} {xs : List α}
    (h : List.Forall₂ (fun c x => Yields s (f x) (P c)) cs xs) :
    Yields s (xs.mapM f) (List.Forall₂ P cs) := by
  induction h with
  | nil => exact yields_pure .nil
  | cons hx _ ih =>
    rw [List.mapM_cons]
    exact hx.bind fun _ hb => ih.bind fun _ hbs => yields_pure (.cons hb hbs)

theorem yields_lift {e : Except Fault α} {a : α} {P : α → Prop} (he : e = .ok a) (h : P a) :
    Yields s (liftM e : Writer α) P := by
  subst he
  exact fun locals => ⟨a, locals, rfl, h⟩

theorem yields_read : Yields s (read : Writer Setting) (· = s) :=
  fun locals => ⟨s, locals, rfl, rfl⟩

theorem yields_get : Yields s (get : Writer Locals) fun _ => True :=
  fun locals => ⟨locals, locals, rfl, trivial⟩

theorem yields_declare {name : Value} (h : name.checkKey = .ok ()) :
    Yields s (declare name) fun _ => True := by
  intro locals
  refine ⟨(), name :: locals, ?_, trivial⟩
  simp only [declare, h]
  rfl

theorem Yields.withLocals {w : Writer α} {P : α → Prop} (start : Locals → Locals)
    (h : Yields s w P) : Yields s (withLocals start w) P := by
  intro locals
  obtain ⟨a, locals', hrun, ha⟩ := h (start locals)
  refine ⟨a, locals, ?_, ha⟩
  change ((w.run s).run (start locals)).bind (fun p => .ok (p.1, locals)) = _
  rw [hrun]
  rfl

theorem Yields.withBraces {w : Writer α} {P : α → Prop} {braces : Bool}
    (h : Yields { s with braceBlocks := braces } w P) : Yields s (withBraces braces w) P :=
  h

/-! ## Writers of a text -/

/-- In the given setting the writer never fails, and the text of what it returns is `t`. -/
def Writes (s : Setting) (w : Writer Draft) (t : Text) : Prop :=
  Yields s w fun d => d.build = .ok t

theorem Writes.built {w : Writer Draft} {t : Text} (h : Writes s w t) :
    Yields s w.built (· = t) :=
  h.bind fun _ hd => yields_lift hd rfl

theorem writes_pure {d : Draft} {t : Text} (h : d.build = .ok t) : Writes s (pure d) t :=
  yields_pure h

/-- A writer after something already drafted. -/
theorem Writes.after {d : Draft} {t u : Text} {w : Writer Draft} (hd : d.build = .ok t)
    (hw : Writes s w u) : Writes s (do return d ++ (← w)) (t ++ u) :=
  hw.bind fun _ he => writes_pure (Draft.build_append hd he)

end Writer

/-! ## Statements -/

namespace Rules

open Writer (Writes Needs yields_lift needs_after needs_after_ok)

variable {s : Setting} {kind : Kind} {field : Field → Value} {t : Text} {p : Prop}

/-- A statement that does not begin with a hash literal is written like an expression. -/
theorem writes_plainStatement (hbrace : (Value.node kind field).startsWithBrace = .ok false)
    (h : Writes s ((Value.node kind field).rendition.write .expression) t) :
    Writes s (plainStatement (.node kind field) fun f => (field f).rendition) t := by
  refine (yields_lift (P := (· = false)) hbrace rfl).bind ?_
  rintro _ rfl
  exact h

/-- A statement needs what it needs as an expression. -/
theorem needs_plainStatement (h : Needs ((Value.node kind field).rendition.write .expression) p) :
    Needs (plainStatement (.node kind field) fun f => (field f).rendition) p := by
  refine needs_after fun brace => ?_
  cases brace with
  | true => exact Needs.bind (Needs.bind h)
  | false => exact h

theorem isOutputCall_of_receiver (hreceiver : (field .receiver).isNull = false) (s : Setting)
    (locals : Locals) : isOutputCall s locals (fun f => (field f).rendition.value) = .ok false := by
  simp [isOutputCall, hreceiver]
  rfl

/-- A call with a receiver has no shorter form as a statement. -/
theorem writes_callStatement (hreceiver : (field .receiver).isNull = false)
    (h : Writes s (plainStatement (.node .call field) fun f => (field f).rendition) t) :
    Writes s ((Value.node .call field).rendition.write .statement) t := by
  refine Writer.yields_read.bind fun s' _ => Writer.yields_get.bind fun locals _ => ?_
  refine (yields_lift (P := (· = false)) (isOutputCall_of_receiver hreceiver s' locals) rfl).bind ?_
  rintro _ rfl
  exact h

theorem needs_callStatement (hreceiver : (field .receiver).isNull = false)
    (h : Needs (plainStatement (.node .call field) fun f => (field f).rendition) p) :
    Needs ((Value.node .call field).rendition.write .statement) p := by
  refine needs_after fun s' => needs_after fun locals => ?_
  exact needs_after_ok (isOutputCall_of_receiver hreceiver s' locals) h

end Rules

/-! ## Sequences of statements -/

namespace Sequence

open Writer (Writes writes_pure)

variable {s : Setting}

/-- A value that is neither a comment nor a blank line. -/
def IsProper (v : Value) : Prop := v.inGroup Kind.isTrivia = false

theorem IsProper.isKind {v : Value} (h : IsProper v) :
    v.isKind .comment = false ∧ v.isKind .blankLine = false := by
  have hkind : ∀ kind : Kind, kind.isTrivia = true → v.isKind kind = false := by
    intro kind htrivia
    rw [Value.isKind, beq_eq_false_iff_ne]
    intro hv
    rw [IsProper, Value.inGroup, hv, Option.any_some, htrivia] at h
    exact Bool.false_ne_true h.symm
  exact ⟨hkind .comment rfl, hkind .blankLine rfl⟩

/-- Nothing is dropped where there is nothing but statements. -/
theorem kept_eq {α : Type} (s : Setting) (file : Bool) {value : α → Value} {xs : List α}
    (h : ∀ x ∈ xs, IsProper (value x)) : kept s file value xs = xs := by
  have hfilter : (xs.filter fun x => isKept s (value x)) = xs := by
    rw [List.filter_eq_self]
    intro x hx
    simp [isKept, (h x hx).isKind]
  have hdrop : ∀ ys : List α, (∀ x ∈ ys, x ∈ xs) →
      ys.dropWhile (fun x => (value x).isKind .blankLine) = ys := by
    intro ys hys
    cases ys with
    | nil => rfl
    | cons y ys => simp [(h y (hys y (by simp))).isKind]
  simp only [kept, hfilter]
  split
  · rw [trim, hdrop xs fun _ hx => hx, hdrop xs.reverse fun _ hx => List.mem_reverse.mp hx,
      List.reverse_reverse]
  · rfl

theorem writeOne_eq {statement : Statement} (h : IsProper statement.value) (endsFile : Bool) :
    writeOne endsFile statement = statement.write := by
  obtain ⟨v, write⟩ := statement
  cases v with
  | node kind field => cases kind <;> first | rfl | exact nomatch h
  | _ => rfl

/-- After a statement comes a separator. -/
theorem needsSeparator_after {v : Value} (h : IsProper v) :
    (SeparatorState.after v).needsSeparator = true := by
  rw [SeparatorState.after, h, if_neg Bool.false_ne_true]
  split
  · rfl
  · split <;> rfl

/-- The statement is no comment or blank line, and it is written as the text. -/
def IsWritten (s : Setting) (statement : Statement) (t : Text) : Prop :=
  IsProper statement.value ∧ Writes s statement.write t

theorem isProper_of_isWritten {statements : List Statement} {ts : List Text}
    (h : List.Forall₂ (IsWritten s) statements ts) :
    ∀ statement ∈ statements, IsProper statement.value := by
  induction h with
  | nil => exact nofun
  | cons hstatement _ ih => exact List.forall_mem_cons.mpr ⟨hstatement.1, ih⟩

theorem writes_writeFrom (file : Bool) {statements : List Statement} {ts : List Text}
    (h : List.Forall₂ (IsWritten s) statements ts) (state : SeparatorState)
    (hstate : state.needsSeparator = true) :
    Writes s (writeFrom file state statements) (ts.flatMap (.separator :: ·)) := by
  induction h generalizing state with
  | nil => exact writes_pure Draft.build_nil
  | @cons statement t statements ts hstatement _ ih =>
    rw [writeFrom, writeOne_eq hstatement.1, hstate, if_pos rfl, List.flatMap_cons]
    refine hstatement.2.bind fun _ hd => (ih _ (needsSeparator_after hstatement.1)).bind
      fun _ he => writes_pure ?_
    exact Draft.build_append (Draft.build_append Draft.build_separator hd) he

theorem intercalate_cons (t : Text) (ts : List Text) :
    List.intercalate [.separator] (t :: ts) = t ++ ts.flatMap (.separator :: ·) := by
  induction ts generalizing t with
  | nil => simp
  | cons u ts ih => rw [List.intercalate_cons_cons, ih, List.flatMap_cons]; simp

/-- **Statements are written with separators between them.** -/
theorem writes_write (file : Bool) {statements : List Statement} {ts : List Text}
    (h : List.Forall₂ (IsWritten s) statements ts) :
    Writes s (write file statements) (List.intercalate [.separator] ts) := by
  refine Writer.yields_read.bind ?_
  rintro _ rfl
  rw [kept_eq _ file (isProper_of_isWritten h)]
  cases h with
  | nil => exact writes_pure Draft.build_nil
  | @cons statement t statements ts hstatement hrest =>
    rw [writeFrom, writeOne_eq hstatement.1, intercalate_cons]
    have htail := writes_writeFrom file hrest _ (needsSeparator_after hstatement.1)
    refine hstatement.2.bind fun _ hd => htail.bind fun _ he => writes_pure ?_
    exact Draft.build_append hd he

/-- A sequence of one statement needs what the statement needs. -/
theorem needs_write {file : Bool} {statement : Statement} {p : Prop}
    (hproper : IsProper statement.value) (h : Writer.Needs statement.write p) :
    Writer.Needs (write file [statement]) p := by
  refine Writer.needs_after fun s => ?_
  rw [kept_eq s file (List.forall_mem_singleton.mpr hproper), writeFrom, writeOne_eq hproper]
  exact h.bind

/-! ## Bodies -/

/-- As a statement, the value is written as the text. -/
def IsStatement (s : Setting) (v : Value) (t : Text) : Prop :=
  IsWritten s ⟨v, v.rendition.write .statement⟩ t

/-- The statements of a body: none if it is absent, those of a sequence, and any other node is a
single statement. -/
inductive IsBody : Value → List Value → Prop where
  | absent : IsBody .null []
  | sequence {field : Field → Value} {vs : List Value} (items : field .body = .seq vs) :
      IsBody (.node .statements field) vs
  | single {kind : Kind} {field : Field → Value} (other : kind ≠ .statements) :
      IsBody (.node kind field) [.node kind field]

variable {v : Value} {vs : List Value} {ts : List Text}

theorem IsBody.bodyStatements (h : IsBody v vs) : v.bodyStatements = .ok vs := by
  cases h with
  | absent => rfl
  | sequence items =>
    rw [Value.bodyStatements, items]
    rfl
  | @single kind field other => cases kind <;> first | rfl | exact absurd rfl other

theorem isProper_of_isStatement (h : List.Forall₂ (IsStatement s) vs ts) :
    ∀ w ∈ vs, IsProper w := by
  intro w hw
  have hstatements : List.Forall₂ (IsWritten s)
      (vs.map fun w => ⟨w, w.rendition.write .statement⟩) ts := List.forall₂_map_left_iff.mpr h
  exact isProper_of_isWritten hstatements _ (List.mem_map_of_mem hw)

theorem isKind_statements {kind : Kind} {field : Field → Value} (other : kind ≠ .statements) :
    (Value.node kind field).isKind .statements = false := by
  rw [Value.isKind, beq_eq_false_iff_ne]
  exact fun hk => other (Option.some_inj.mp hk)

/-- The statements of a body are written with separators between them. -/
theorem IsBody.writes (h : IsBody v vs) (file : Bool) (hvs : List.Forall₂ (IsStatement s) vs ts) :
    Writes s (v.rendition.write (.body file)) (List.intercalate [.separator] ts) := by
  cases h with
  | absent =>
    cases hvs
    exact writes_pure Draft.build_nil
  | @sequence field vs items =>
    change Writes s (Rules.sequenceOf file (field .body).rendition) _
    rw [items]
    refine (Writer.yields_pure (P := (· = Value.itemRenditions vs)) rfl).bind ?_
    rintro _ rfl
    rw [Value.itemRenditions_eq_map, List.map_map]
    refine writes_write file (List.forall₂_map_left_iff.mpr (hvs.imp fun w t hw => ?_))
    change IsWritten s ⟨w.rendition.value, w.rendition.write .statement⟩ t
    rwa [Value.rendition_value]
  | @single kind field other =>
    change Writes s (Rules.body file (.node kind field) fun f => (field f).rendition) _
    rw [Rules.body, isKind_statements other]
    obtain _ | ⟨hstatement, _ | _⟩ := hvs
    exact writes_write file (.cons hstatement .nil)

theorem needsSeparator_afterAll (h : ∀ w ∈ vs, IsProper w) :
    (SeparatorState.afterAll vs).needsSeparator = !vs.isEmpty := by
  obtain rfl | ⟨front, last, rfl⟩ := List.eq_nil_or_concat vs
  · rfl
  · rw [List.concat_eq_append] at h ⊢
    have hlast := needsSeparator_after (h last (by simp))
    rw [SeparatorState.afterAll, List.getLast?_concat]
    simp [hlast]

theorem intercalate_append (ts : List Text) :
    List.intercalate [.separator] ts ++ (if ts.isEmpty then [] else [.separator]) =
      ts.flatMap (· ++ [.separator]) := by
  induction ts with
  | nil => rfl
  | cons t ts ih =>
    cases ts with
    | nil => simp
    | cons u ts =>
      rw [List.intercalate_cons_cons, List.flatMap_cons, ← ih]
      simp

theorem needs_single {kind : Kind} {field : Field → Value} {p : Prop} (file : Bool)
    (other : kind ≠ .statements) (hproper : IsProper (.node kind field))
    (h : Writer.Needs ((Value.node kind field).rendition.write .statement) p) :
    Writer.Needs ((Value.node kind field).rendition.write (.body file)) p := by
  change Writer.Needs (Rules.body file (.node kind field) fun f => (field f).rendition) p
  rw [Rules.body, isKind_statements other]
  exact needs_write hproper h

/-- **A body between a header and a keyword** has a separator before it and one after each of its
statements. -/
theorem IsBody.writes_clause (h : IsBody v vs) (hvs : List.Forall₂ (IsStatement s) vs ts) :
    Writes s (clause v.rendition) (.separator :: ts.flatMap (· ++ [.separator])) := by
  have hproper := isProper_of_isStatement hvs
  have hfinal : finalState s v = .ok (SeparatorState.afterAll vs) := by
    have hkept : kept s false id vs = vs := kept_eq s false hproper
    rw [finalState, h.bodyStatements]
    change Except.ok (SeparatorState.afterAll (kept s false id vs)) = _
    rw [hkept]
  have hempty : vs.isEmpty = ts.isEmpty := by cases hvs <;> rfl
  refine (h.writes false hvs).bind fun _ hd => Writer.yields_read.bind ?_
  rintro _ rfl
  rw [Value.rendition_value]
  refine (Writer.yields_lift (P := (· = SeparatorState.afterAll vs)) hfinal rfl).bind ?_
  rintro _ rfl
  rw [needsSeparator_afterAll hproper, hempty, ← intercalate_append, ← List.singleton_append,
    ← List.append_assoc]
  refine writes_pure (Draft.build_append (Draft.build_append Draft.build_separator hd) ?_)
  cases ts.isEmpty
  · exact Draft.build_separator
  · exact Draft.build_nil

end Sequence

/-! ## Files -/

/-- The text of a file is that of its body, spelled under the options. -/
theorem render_eq {v : Value} {t : Text} {o : Options}
    (h : Writer.Writes (Setting.ofOptions o) (v.fileBody.rendition.write (.body true)) t) :
    render o v = .ok (String.ofList (t.spell o)) := by
  obtain ⟨d, locals, hrun, hd⟩ := h []
  have htext : renderText (Setting.ofOptions o) v = .ok t := by
    rw [renderText, renderDraft, hrun]
    exact hd
  rw [render, renderUnder, htext]

/-- A file that is rendered has what its body needs. -/
theorem needs_of_render {v : Value} {o : Options} {text : String} {p : Prop}
    (h : Writer.Needs (v.fileBody.rendition.write (.body true)) p) (hrender : render o v = .ok text) :
    p := by
  rw [render, renderUnder] at hrender
  split at hrender
  · rename_i t ht
    obtain ⟨d, hd, -⟩ := exists_of_bind_eq_ok ht
    obtain ⟨⟨d', locals⟩, hrun, -⟩ := exists_of_bind_eq_ok hd
    exact (h _ _ _ _ trivial hrun).2
  · cases hrender

end TerseRuby
