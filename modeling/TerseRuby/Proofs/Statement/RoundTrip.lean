import TerseRuby.Proofs.Statement.Reader
import TerseRuby.Proofs.Statement.Writing

/-!
# Programs read back as themselves

A program of variables and constructs is rendered as its lines (`Stmt.IsTree.isWritten`), and the
reader finds the program in these lines (`Stmt.read_lines`); the options choose the separator and
nothing else.  So no body, no branch and no `end` is ever read as belonging to another construct.
-/

set_option autoImplicit false

namespace TerseRuby
namespace Stmt

open Lexeme (text)
open Line (joined terminated)

/-- The tree is a program of the statements. -/
inductive IsProgram : List Stmt → Value → Prop where
  | mk {ss : List Stmt} {field : Field → Value} (body : IsTree (.body ss) (field .statements)) :
      IsProgram ss (.node .program field)

theorem intercalate_joined (ss : List Stmt) :
    List.intercalate [.separator] (ss.map fun st => text (joined st.lines)) =
      text (joined (bodyLines ss)) := by
  induction ss with
  | nil =>
    rw [bodyLines]
    rfl
  | cons st ss ih =>
    cases ss with
    | nil => rw [bodyLines, bodyLines, List.append_nil, List.map_singleton,
        List.intercalate_singleton]
    | cons next ss =>
      have hnext : bodyLines (next :: ss) ≠ [] := by
        rw [bodyLines]
        exact List.append_ne_nil_of_left_ne_nil next.lines_ne_nil _
      rw [List.map_cons] at ih
      rw [List.map_cons, List.map_cons, List.intercalate_cons_cons, ih, bodyLines_cons st,
        Line.joined_append hnext, ← Line.joined_concat_separator st.lines_ne_nil,
        Lexeme.text_append, Lexeme.text_append]
      rfl

/-- A program is rendered as its lines. -/
theorem IsProgram.render_eq {ss : List Stmt} {v : Value} (h : IsProgram ss v) (o : Options) :
    render o v = .ok (String.ofList ((text (joined (bodyLines ss))).spell o)) := by
  cases h with
  | mk body =>
    refine TerseRuby.render_eq ?_
    cases body with
    | body shape statements =>
      have hwrites := shape.writes true (statements.isWritten (s := Setting.ofOptions o) rfl)
      rwa [intercalate_joined] at hwrites

/-- **A program is read back as itself**: rendering any of its trees under any options gives a text,
and the reader finds the program in it and nothing else. -/
theorem read_render_program {ss : List Stmt} {v : Value} (h : IsProgram ss v) (o : Options) :
    ∃ text, render o v = .ok text ∧ read text = some ss := by
  refine ⟨_, h.render_eq o, read_lines ?_ o⟩
  cases h with
  | mk body => exact body.isFormed

/-- A loop around a block with exception handling.  The condition in the block stands at the end of
its line, and the branches for an exception and for what comes otherwise are empty. -/
def guardedLoop : List Stmt :=
  [.construct [⟨.whileLoop .a,
    [.construct
      [⟨.beginBlock, [.construct [⟨.ifThen .a, [.atom .a]⟩]]⟩,
        ⟨.rescue [.a] (some .a), []⟩,
        ⟨.otherwise, []⟩,
        ⟨.ensured, [.construct [⟨.call .a .a, []⟩]]⟩]]⟩]]

/-- A tree for the loop: its body is the block itself, and the body of the condition a sequence. -/
def guardedLoopTree : Value :=
  let atom : Value := (Expr.var .a).tree
  let sequence (items : List Value) : Value := .ofFields .statements [(.body, .seq items)]
  .ofFields .program [(.statements, sequence
    [.ofFields .whileLoop [(.predicate, atom), (.statements,
      .ofFields .beginBlock
        [(.statements, .ofFields .ifThen [(.predicate, atom), (.statements, sequence [atom])]),
          (.rescueClauses, .seq [.ofFields .rescueClause
            [(.exceptions, .seq [atom]), (.reference, Name.a.value)]]),
          (.elseClause, .ofFields .elseBranch []),
          (.ensureClause, .ofFields .ensureClause [(.statements,
            .ofFields .call [(.receiver, atom), (.name, Name.a.value),
              (.block, .ofFields .block [])])])])]])]

theorem isProgram_guardedLoop : IsProgram guardedLoop guardedLoopTree := by
  have hatom : IsAtom .a (Expr.var .a).tree := Expr.isTree_tree _
  have hempty : IsTree (.body []) .null := .body .absent .nil
  refine .mk (.body (.sequence rfl) (.cons (.enclosed rfl (.clause (.whileLoop hatom) ?_)) .nil))
  refine .body (.single nofun)
    (.cons (@IsTree.beginBlock _ [_] [_] [_] _ ?_ ?_ ?_ ?_) .nil)
  · refine .body (.single nofun) (.cons (.ifThen hatom ?_ (.noElsif .absent)) .nil)
    exact .body (.sequence rfl) (.cons (.atom hatom) .nil)
  · exact .rowCons rfl (.clause (.rescue (.mk (.cons hatom .nil)) rfl) hempty) .rowNil
  · exact .present rfl (.clause .otherwise hempty)
  · refine .present rfl (.clause .ensured (.body (.single nofun) (.cons ?_ .nil)))
    exact .enclosed rfl (.clause (.call hatom rfl rfl rfl rfl .absent) hempty)

theorem read_render_program_loop :
    IsProgram guardedLoop guardedLoopTree ∧
      ∃ text, render .default guardedLoopTree = .ok text ∧ read text = some guardedLoop :=
  ⟨isProgram_guardedLoop, read_render_program isProgram_guardedLoop .default⟩

end Stmt
end TerseRuby
