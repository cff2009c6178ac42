import TerseRuby.Proofs.Locals.Tracking
import TerseRuby.Proofs.Writing

/-!
# Programs one after the other

Two lists of statements that are rendered together give the two texts with a separator between
them, as if each had been rendered by itself.  Two things could stand in the way.

* The ends of a file are special: no blank lines stand there, and a comment there has no line break
  after it.  So the lists have to meet in two statements that are no comments or blank lines.
  `Sequence.kept_append` and `Sequence.writeFrom_append` then split what is kept and what is
  written.
* The second list is rendered with the variables that the first one declares.  This changes
  nothing if no call without receiver in it has the name of one of them: by
  `Value.enters_rendition`, nothing else is asked about.

The main result is `render_append`.
-/

set_option autoImplicit false

namespace TerseRuby

/-! ## Sequences -/

namespace Sequence

section Trim

variable {α : Type} {p : α → Bool} {x y : α}

theorem trim_concat (hx : p x = false) (front : List α) :
    trim p (front ++ [x]) = front.dropWhile p ++ [x] := by
  have hdrop : (front ++ [x]).dropWhile p = front.dropWhile p ++ [x] := by
    rw [List.dropWhile_append]
    split
    · rename_i hempty
      simp [List.isEmpty_iff.mp hempty, hx]
    · rfl
  rw [trim, hdrop, List.reverse_append]
  simp [hx]

theorem trim_cons (hy : p y = false) (back : List α) :
    trim p (y :: back) = y :: (back.reverse.dropWhile p).reverse := by
  rw [trim, List.dropWhile_cons_of_neg (by simp [hy]), List.reverse_cons, List.dropWhile_append]
  split
  · rename_i hempty
    simp [List.isEmpty_iff.mp hempty, hy]
  · simp

/-- Nothing is taken away in the middle. -/
theorem trim_append (hx : p x = false) (hy : p y = false) (front back : List α) :
    trim p (front ++ [x] ++ y :: back) = trim p (front ++ [x]) ++ trim p (y :: back) := by
  have hdrop : (front ++ [x] ++ y :: back).dropWhile p = front.dropWhile p ++ [x] ++ y :: back := by
    rw [List.append_assoc, List.dropWhile_append, List.append_assoc]
    split
    · rename_i hempty
      simp [List.isEmpty_iff.mp hempty, hx]
    · rfl
  rw [trim_concat hx, trim_cons hy, trim, hdrop, List.reverse_append, List.reverse_cons,
    List.append_assoc, List.dropWhile_append]
  split
  · rename_i hempty
    simp [List.isEmpty_iff.mp hempty, hy]
  · simp

end Trim

/-- What is kept of two sequences that meet in proper statements. -/
theorem kept_append {s : Setting} {items more : List Value} {x y : Value}
    (hlast : (kept s false id items).getLast? = some x) (hx : IsProper x)
    (hfirst : (kept s false id more).head? = some y) (hy : IsProper y) :
    ∃ front back, kept s true id items = front ++ [x] ∧ kept s true id more = y :: back ∧
      kept s true id (items ++ more) = front ++ [x] ++ y :: back := by
  obtain ⟨front, hfront⟩ := List.getLast?_eq_some_iff.mp hlast
  obtain ⟨back, hback⟩ := List.head?_eq_some_iff.mp hfirst
  have htrim (vs : List Value) :
      kept s true id vs = trim (Value.isKind .blankLine) (kept s false id vs) := rfl
  have hboth : kept s false id (items ++ more) = kept s false id items ++ kept s false id more :=
    List.filter_append _ _
  have hx := hx.isKind.2
  have hy := hy.isKind.2
  refine ⟨front.dropWhile (Value.isKind .blankLine),
    (back.reverse.dropWhile (Value.isKind .blankLine)).reverse, ?_, ?_, ?_⟩
  · rw [htrim, hfront, trim_concat hx]
  · rw [htrim, hback, trim_cons hy]
  · rw [htrim, hboth, hfront, hback, trim_append hx hy, trim_concat hx, trim_cons hy]

/-- Statements before others are written as if they ended the file, if the last of them is no
comment or blank line; and the others after a separator as if they began it. -/
theorem writeFrom_append (file : Bool) (state : SeparatorState) (front : List Statement)
    {x : Statement} (hx : IsProper x.value) (y : Statement) (back : List Statement) :
    writeFrom file state (front ++ [x] ++ y :: back) = do
      let head ← writeFrom file state (front ++ [x])
      let tail ← writeFrom file .start (y :: back)
      return head ++ Draft.separator ++ tail := by
  induction front generalizing state with
  | nil =>
    have hseparator := needsSeparator_after hx
    have hstart : SeparatorState.start.needsSeparator = false := rfl
    simp [writeFrom, writeOne_eq hx, hseparator, hstart]
  | cons z front ih =>
    have hboth : (front ++ [x] ++ y :: back).isEmpty = false := by simp
    have hfront : (front ++ [x]).isEmpty = false := by simp
    rw [List.cons_append, List.cons_append, writeFrom, ih, hboth]
    simp only [writeFrom, hfront, bind_assoc, pure_bind, List.append_assoc]

end Sequence

/-! ## Files -/

namespace Value

/-- A sequence of statements as a node. -/
def statementList (items : List Value) : Value := .ofFields .statements [(.body, .seq items)]

/-- A value and how it is written as a statement. -/
def asStatement (v : Value) : Sequence.Statement := ⟨v, v.rendition.write .statement⟩

end Value

open Sequence (IsProper)
open Value (statementList asStatement)

theorem renderDraft_statementList (s : Setting) (items : List Value) :
    renderDraft s (statementList items) =
      Prod.fst <$> ((Sequence.writeFrom true .start
        ((Sequence.kept s true id items).map asStatement)).run s).run [] := by
  have hstatements : ((Value.itemRenditions items).map fun r =>
      (⟨r.value, r.write .statement⟩ : Sequence.Statement)) = items.map asStatement := by
    rw [Value.itemRenditions_eq_map, List.map_map]
    refine List.map_congr_left fun v _ => ?_
    simp [asStatement]
  change (do
    let outcome ← ((Sequence.writeFrom true .start (Sequence.kept s true Sequence.Statement.value
      ((Value.itemRenditions items).map fun r : Rendition =>
        ⟨r.value, r.write .statement⟩))).run s).run []
    return outcome.1) = _
  rw [hstatements, Sequence.kept_map]
  rfl

/-- Statements of a list enter what they declare, and ask only about calls without receiver. -/
theorem enters_statements {items kept : List Value} (h : kept ⊆ items) :
    Writer.Enters (· ∈ (Value.seq items).bareNames)
      (Sequence.writeFrom true .start (kept.map asStatement)) (kept.flatMap Value.declared) := by
  have hitems := Value.enters_rendition (.seq items) (· ∈ (Value.seq items).bareNames)
    fun _ hn => hn
  have hstatements : ∀ statement ∈ kept.map asStatement,
      Writer.Enters (· ∈ (Value.seq items).bareNames) statement.write
        statement.value.declared := by
    intro statement hstatement
    obtain ⟨v, hv, rfl⟩ := List.mem_map.mp hstatement
    have hitem := hitems.each v.rendition.toRendition ?_ .statement rfl
    · rwa [Value.rendition_value] at hitem
    · rw [Value.rendition, Value.itemRenditions_eq_map]
      exact List.mem_map_of_mem (h hv)
  have hwritten := Rules.enters_writeFrom true .start hstatements
  rwa [List.flatMap_map] at hwritten

/-- A run that succeeded, from its draft. -/
theorem exists_run_of_fst {w : Writer Draft} {s : Setting} {l : Locals} {d : Draft}
    (h : Prod.fst <$> (w.run s).run l = .ok d) : ∃ l', (w.run s).run l = .ok (d, l') := by
  rcases hrun : (w.run s).run l with fault | ⟨d', l'⟩
  · rw [hrun] at h
    cases h
  · rw [hrun] at h
    cases h
    exact ⟨l', rfl⟩

/-- Two lists of statements give their two drafts, with a separator between them. -/
theorem renderDraft_append {s : Setting} {items more : List Value} {x y : Value}
    (hlast : (Sequence.kept s false id items).getLast? = some x) (hx : IsProper x)
    (hfirst : (Sequence.kept s false id more).head? = some y) (hy : IsProper y)
    (hnames : ∀ n ∈ (Value.seq more).bareNames, Locals.has s (Value.seq items).declared n = false)
    {d e : Draft} (hd : renderDraft s (statementList items) = .ok d)
    (he : renderDraft s (statementList more) = .ok e) :
    renderDraft s (statementList (items ++ more)) = .ok (d ++ Draft.separator ++ e) := by
  obtain ⟨front, back, hitems, hmore, hboth⟩ := Sequence.kept_append hlast hx hfirst hy
  rw [renderDraft_statementList] at hd he
  obtain ⟨l, hd⟩ := exists_run_of_fst hd
  obtain ⟨m, he⟩ := exists_run_of_fst he
  -- the names that the first list has entered are not asked about in the second
  have halike : Locals.Alike s (· ∈ (Value.seq more).bareNames) [] l := by
    obtain ⟨added, rfl, hadded⟩ :=
      (enters_statements (Sequence.kept_subset s true id items)).added hd
    intro n hn
    have hfalse := hnames n hn
    rw [Locals.has, List.any_eq_false] at hfalse
    rw [Locals.has, Locals.has, List.any_nil, Eq.comm, List.any_eq_false]
    intro known hknown
    refine hfalse known ?_
    rw [List.append_nil, hadded, List.mem_flatMap] at hknown
    obtain ⟨v, hv, hknown⟩ := hknown
    rw [Value.declared_seq, List.mem_flatMap]
    exact ⟨v, Sequence.kept_subset s true id items hv, hknown⟩
  obtain ⟨m', he'⟩ :=
    (enters_statements (Sequence.kept_subset s true id more)).run_of_alike halike he
  rw [hitems] at hd
  rw [hmore] at he'
  have hsplit := Sequence.writeFrom_append true .start (front.map asStatement)
    (show IsProper (asStatement x).value from hx) (asStatement y) (back.map asStatement)
  rw [renderDraft_statementList, hboth]
  simp only [List.map_append, List.map_cons, List.map_nil] at hd he' ⊢
  rw [hsplit, ReaderT.run_bind, StateT.run_bind, hd]
  change Prod.fst <$> (((Sequence.writeFrom true .start
    (asStatement y :: back.map asStatement)).run s).run l >>= fun tail =>
      .ok (d ++ Draft.separator ++ tail.1, tail.2)) = _
  rw [he']
  rfl

theorem renderUnder_eq_ok_iff (s : Setting) (o : Options) (tree : Value) (a : String) :
    renderUnder s o tree = .ok a ↔
      ∃ d t, renderDraft s tree = .ok d ∧ d.build = .ok t ∧ a = String.ofList (t.spell o) := by
  rw [renderUnder, renderText]
  rcases hdraft : renderDraft s tree with fault | d
  · simp [bind, Except.bind]
  · rcases hbuild : d.build with fault | t
    · simp [bind, Except.bind, hbuild]
    · simp [bind, Except.bind, hbuild, eq_comm]

/-- Two lists of statements, under any setting. -/
theorem renderUnder_append {s : Setting} {o : Options} {items more : List Value} {x y : Value}
    (hlast : (Sequence.kept s false id items).getLast? = some x) (hx : IsProper x)
    (hfirst : (Sequence.kept s false id more).head? = some y) (hy : IsProper y)
    (hnames : ∀ n ∈ (Value.seq more).bareNames, Locals.has s (Value.seq items).declared n = false)
    {a b : String} (ha : renderUnder s o (statementList items) = .ok a)
    (hb : renderUnder s o (statementList more) = .ok b) :
    renderUnder s o (statementList (items ++ more)) =
      .ok (a ++ String.singleton o.separator ++ b) := by
  obtain ⟨d, t, hd, ht, rfl⟩ := (renderUnder_eq_ok_iff s o _ a).mp ha
  obtain ⟨e, u, he, hu, rfl⟩ := (renderUnder_eq_ok_iff s o _ b).mp hb
  refine (renderUnder_eq_ok_iff s o _ _).mpr ⟨d ++ Draft.separator ++ e, t ++ [.separator] ++ u,
    renderDraft_append hlast hx hfirst hy hnames hd he,
    Draft.build_append (Draft.build_append ht Draft.build_separator) hu, ?_⟩
  have hseparator : Text.spell o [.separator] = [o.separator] := by
    simp [Text.spell, Glyph.spell]
  rw [Text.spell_append, Text.spell_append, hseparator, String.ofList_append, String.ofList_append]
  rfl

/-- **Programs are rendered one after the other.**  Two lists of statements are rendered together as
the text of the first, a separator, and the text of the second, under all options.  What is kept of
the first has to end, and what is kept of the second to begin, with a statement that is no comment
or blank line; and no call without receiver in the second may have the name of a variable that the
first declares. -/
theorem render_append (o : Options) {items more : List Value} {x y : Value}
    (hlast : (Sequence.kept (Setting.ofOptions o) false id items).getLast? = some x)
    (hx : IsProper x)
    (hfirst : (Sequence.kept (Setting.ofOptions o) false id more).head? = some y)
    (hy : IsProper y)
    (hnames : ∀ n ∈ (Value.seq more).bareNames,
      Locals.has (Setting.ofOptions o) (Value.seq items).declared n = false)
    {a b : String} (ha : render o (statementList items) = .ok a)
    (hb : render o (statementList more) = .ok b) :
    render o (statementList (items ++ more)) = .ok (a ++ String.singleton o.separator ++ b) :=
  renderUnder_append hlast hx hfirst hy hnames ha hb

/-- An assignment after a blank line, and a call of another name with a comment after it. -/
theorem render_append_call :
    let name (text : String) : Value := .scalar (.str text)
    let items := [Value.ofFields .blankLine [],
      .ofFields .localWrite [(.name, name "x"), (.value, .ofFields .nilLiteral [])]]
    let more := [Value.ofFields .call [(.name, name "y")], .ofFields .comment [(.text, name "z")]]
    let o : Options := { stripComments := false, stripBlankLines := false }
    render o (statementList (items ++ more)) = .ok ("x=nil" ++ String.singleton ';' ++ "y;#z") := by
  intro name items more o
  have hlast : (Sequence.kept (Setting.ofOptions o) false id items).getLast? =
    some (.ofFields .localWrite [(.name, name "x"), (.value, .ofFields .nilLiteral [])]) := rfl
  have hfirst : (Sequence.kept (Setting.ofOptions o) false id more).head? =
    some (.ofFields .call [(.name, name "y")]) := rfl
  have hnames : ∀ n ∈ (Value.seq more).bareNames,
      Locals.has (Setting.ofOptions o) (Value.seq items).declared n = false := by
    have hbare : (Value.seq more).bareNames = [name "y"] := rfl
    rw [hbare, List.forall_mem_singleton]
    decide
  exact render_append o hlast rfl hfirst rfl hnames rfl rfl

end TerseRuby
