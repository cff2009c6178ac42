import TerseRuby.Proofs.Acceptance.Nodes
import TerseRuby.Proofs.Number.Digits

/-!
# Which trees are rendered

The verdicts on the rules are tied together here, by induction on the tree
(`Value.rendition_judged`), and there is one verdict on a whole tree for all options and settings
(`exists_verdict`).  Two things follow.  The options never decide whether a typed tree is rendered
(`render_fails_iff`), although they do decide which of its faults is reported.  And a tree of a
program is always rendered, if its strings, symbols and comments have texts and its integers can be
written (`render_succeeds`).
-/

set_option autoImplicit false

namespace TerseRuby

open Decimal (tenPow)

/-! ## All values -/

namespace Value

variable {strict : Bool}

/-- What has no fields is decided. -/
theorem leafRendition_judged (strict : Bool) {v : Value} (h : v.isNode = false) :
    v.leafRendition.Judged strict := by
  have hbrace : IsAnswered v.startsWithBrace := by
    cases v with
    | node kind field => cases h
    | _ => exact isAnswered_ok _
  have hvalue (f : Field) : FieldRendition.absent.value = v.field f := by
    cases v with
    | node kind field => cases h
    | _ => rfl
  refine Rules.write_judged ⟨hvalue, fun hnode => ?_, fun kind hkind => ?_,
    isTyped_of_not_isNode h, hbrace, fun _ => isGrammatical_of_not_isNode h,
    fun _ => hasNumeral_of_not_isNode h⟩
  · rw [h] at hnode
    cases hnode
  · obtain ⟨field, rfl⟩ := exists_of_kind? hkind
    cases h

/-- A value is decided if the nodes among its elements are, and the value itself if it is a node. -/
theorem judged_of_elements {v : Value}
    (hnode : v.isNode = true → v.rendition.toRendition.Judged strict)
    (h : ∀ e ∈ v.elements, e.isNode = true → e.rendition.toRendition.Judged strict) :
    v.rendition.Judged strict := by
  have hwhole (v : Value) (hv : v.isNode = true → v.rendition.toRendition.Judged strict) :
      v.rendition.toRendition.Judged strict := by
    cases hleaf : v.isNode
    · rw [toRendition_of_not_isNode hleaf]
      exact leafRendition_judged strict hleaf
    · exact hv hleaf
  refine ⟨hwhole v hnode, fun x hx => ?_, by rw [rendition_elements, rendition_value]⟩
  rw [rendition_elements_eq] at hx
  obtain ⟨e, he, rfl⟩ := List.mem_map.mp hx
  exact hwhole e (h e he)

/-- **Every value in a typed tree is decided**, and strictly so if the tree is grammatical and has
numerals. -/
theorem rendition_judged {v : Value} (h : v.isTypedTree = true)
    (hstrict : strict = true → v.isGrammaticalTree = true)
    (hnumerals : strict = true → v.hasNumerals = true) :
    v.rendition.Judged strict := by
  induction v using Value.induction with
  | seq items ih =>
    refine judged_of_elements (fun hnode => by cases hnode) fun e he hnode => ?_
    exact (ih e he (all_preorder_item h he hnode)
      (fun hs => all_preorder_item (hstrict hs) he hnode)
      fun hs => all_preorder_item (hnumerals hs) he hnode).whole
  | node kind field ih =>
    have hparts : PartsJudged strict (.node kind field) fun f => (field f).rendition := by
      refine ⟨fun f => rendition_value _, fun _ f => rfl, fun kind' hkind f hown => ?_,
        isTyped_of_isTypedTree h, isAnswered_startsWithBrace h,
        fun hs => List.all_eq_true.mp (hstrict hs) _ List.mem_cons_self,
        fun hs => List.all_eq_true.mp (hnumerals hs) _ List.mem_cons_self⟩
      cases hkind
      have hmem := Kind.mem_ownFields_of_owns hown
      exact ih f (isTypedTree_field h f hown)
        (fun hs => all_preorder_field (fun _ => isGrammatical_of_not_isNode) (hstrict hs) hmem)
        fun hs => all_preorder_field (fun _ => hasNumeral_of_not_isNode) (hnumerals hs) hmem
    exact ⟨Rules.write_judged hparts, fun x hx => absurd hx List.not_mem_nil, rfl⟩
  -- what is neither a sequence nor a node has no nodes in it
  | _ =>
    refine judged_of_elements (fun hnode => by cases hnode) fun e he hnode => ?_
    obtain ⟨items, hitems, _⟩ := exists_items_of_mem_elements he hnode
    cases hitems

/-- What holds of all nodes of a tree holds of all nodes in the body of the file. -/
theorem all_preorder_fileBody {p : Value → Bool}
    (hleaf : ∀ v : Value, v.isNode = false → p v = true)
    (hnull : (fileBody null).preorder.all p = true) {tree : Value}
    (h : tree.preorder.all p = true) : tree.fileBody.preorder.all p = true := by
  cases tree with
  | node kind field =>
    cases kind
    case program => exact all_preorder_field hleaf h (Kind.mem_ownFields_of_owns rfl)
    all_goals exact h
  | scalar c =>
    cases c with
    | null => exact hnull
    | _ => exact h
  | _ => exact h

theorem isTypedTree_fileBody {tree : Value} (h : tree.isTypedTree = true) :
    tree.fileBody.isTypedTree = true :=
  all_preorder_fileBody (fun _ => isTyped_of_not_isNode) rfl h

theorem hasTexts_fileBody {tree : Value} (h : tree.hasTexts = true) :
    tree.fileBody.hasTexts = true :=
  all_preorder_fileBody (fun _ => hasText_of_not_isNode) rfl h

theorem hasNumerals_fileBody {tree : Value} (h : tree.hasNumerals = true) :
    tree.fileBody.hasNumerals = true :=
  all_preorder_fileBody (fun _ => hasNumeral_of_not_isNode) rfl h

end Value

/-! ## Whole trees -/

/-- There is one verdict on a tree, for all settings and options. -/
theorem exists_verdict (strict : Bool) {tree : Value} (h : tree.fileBody.isTypedTree = true)
    (hstrict : strict = true → tree.isGrammaticalFile = true)
    (hnumerals : strict = true → tree.fileBody.hasNumerals = true) :
    ∃ v : Verdict strict, ∀ setting o,
      v.accepts ↔ ∃ text, renderUnder setting o tree = .ok text := by
  have hjudged : tree.fileBody.rendition.Judged strict :=
    Value.rendition_judged h (fun hs => (Bool.and_eq_true_iff.mp (hstrict hs)).2) hnumerals
  have hadmitted : tree.fileBody.rendition.value.isAdmitted strict (.body true) = true := by
    refine Value.isAdmitted_of (fun hs => ?_) rfl
    rw [Value.rendition_value]
    exact (Bool.and_eq_true_iff.mp (hstrict hs)).1
  obtain ⟨v, u, hdraft⟩ := hjudged.whole.write (.body true) hadmitted
  refine ⟨v.and u, fun setting o => ?_⟩
  have htext : (v.and u).Decides (fun _ => True) (renderText setting tree) := by
    have hrun : v.Decides (Draft.Decided u false) (renderDraft setting tree) :=
      ((hdraft setting []).bind (u := .yes) fun out hout => .accepted rfl trivial hout).congr
        (by simp)
    exact hrun.bind fun d hd => Verdict.Decides.mono hd fun _ _ => trivial
  rw [htext.accepts_iff, renderUnder]
  cases renderText setting tree with
  | ok t => exact ⟨fun _ => ⟨_, rfl⟩, fun _ => ⟨t, rfl⟩⟩
  | error fault =>
    constructor <;>
    · rintro ⟨t, ht⟩
      cases ht

theorem exists_fault_iff {α : Type} (e : Except Fault α) :
    (∃ fault, e = .error fault) ↔ ¬ ∃ a, e = .ok a := by
  cases e <;> simp

/-- **The options never decide whether a tree is rendered.**  For every typed tree, in which
anything may stand where a node is expected, rendering fails under all options or under none,
whether the tree was given or read from text. -/
theorem render_fails_iff (tree : Value) (h : tree.isTypedTree = true) (o o' : Options) :
    ((∃ fault, render o tree = .error fault) ↔ ∃ fault, render o' tree = .error fault) ∧
      ((∃ fault, renderRead o tree = .error fault) ↔
        ∃ fault, renderRead o' tree = .error fault) := by
  obtain ⟨v, hv⟩ := exists_verdict false (Value.isTypedTree_fileBody h)
    (fun hfalse => by cases hfalse) fun hfalse => by cases hfalse
  have hsame (s s' : Setting) : (∃ fault, renderUnder s o tree = .error fault) ↔
      ∃ fault, renderUnder s' o' tree = .error fault := by
    rw [exists_fault_iff, exists_fault_iff, ← hv, ← hv]
  exact ⟨hsame _ _, hsame _ _⟩

/-- A condition that is a number outside the tree, on a block argument after a comment. -/
def foreignCondition : Value :=
  .ofFields .ifThen [(.predicate, .scalar (.int 5)),
    (.statements, .ofFields .statements [(.body, .seq
      [.ofFields .comment [(.text, .scalar (.str " x"))], .ofFields .blockArgument []])])]

/-- Neither the condition nor the body can be written.  If comments are dropped, the condition might
go to the end, and it fails the walk that decides about this; otherwise it is met first as an
expression. -/
theorem render_fails_iff_foreign :
    render {} foreignCondition = .error .notRecord ∧
      render { stripComments := false } foreignCondition =
        .error (.unsupported "int" (some .foreignValue)) ∧
      ((∃ fault, render {} foreignCondition = .error fault) ↔
        ∃ fault, render { stripComments := false } foreignCondition = .error fault) :=
  ⟨rfl, rfl, (render_fails_iff foreignCondition rfl {} { stripComments := false }).1⟩

/-- **A tree of a program is rendered**, under all options, if its strings, symbols and comments
have texts and its integers can be written. -/
theorem render_succeeds (tree : Value) (h : tree.isGrammaticalFile = true)
    (htexts : tree.hasTexts = true) (hnumerals : tree.hasNumerals = true) (o : Options) :
    (∃ text, render o tree = .ok text) ∧ ∃ text, renderRead o tree = .ok text := by
  have hgrammatical := (Bool.and_eq_true_iff.mp h).2
  obtain ⟨v, hv⟩ := exists_verdict true
    (Value.isTypedTree_of_isGrammatical hgrammatical (Value.hasTexts_fileBody htexts)) (fun _ => h)
    fun _ => Value.hasNumerals_fileBody hnumerals
  exact ⟨(hv _ o).mp (v.of_strict rfl), (hv _ o).mp (v.of_strict rfl)⟩

/-- A program with a comment and an assignment to an indexed place under a condition. -/
def conditionalAssignment : Value :=
  .ofFields .program [(.statements, .ofFields .statements [(.body, .seq
    [.ofFields .comment [(.text, .scalar (.str " x"))],
      .ofFields .ifThen [(.predicate, .ofFields .symbol [(.value, .scalar (.str "a"))]),
        (.statements, .ofFields .call
          [(.receiver, .ofFields .localRead [(.name, .scalar (.str "b"))]),
            (.name, .scalar (.str "[]=")),
            (.arguments, .seq [.ofFields .integer [(.value, .scalar (.int 1))],
              .ofFields .string [(.content, .scalar (.str "y"))]])])]])])]

theorem render_succeeds_assignment :
    conditionalAssignment.isGrammaticalFile = true ∧ conditionalAssignment.hasTexts = true ∧
      conditionalAssignment.hasNumerals = true ∧
      (∃ text, render {} conditionalAssignment = .ok text) ∧
      render {} conditionalAssignment = .ok "b[1]=\"y\" if :a" :=
  ⟨rfl, rfl, rfl, (render_succeeds conditionalAssignment rfl rfl rfl {}).1, rfl⟩

/-- A leaf that has a number in one of its fields. -/
def leafOfNumber (kind : Kind) (f : Field) : Value := .ofFields kind [(f, .scalar (.int 5))]

/-- A file that is an integer. -/
def integerFile (n : Int) : Value := .ofFields .integer [(.value, .scalar (.int n))]

/-- An integer with too many digits is refused. -/
theorem render_integerFile {n : Int} (hlong : Decimal.isLong n = true) (o : Options) :
    render o (integerFile n) = .error .numberTooLong := by
  have hliteral : Rules.integer (.scalar (.int n)) = .error .numberTooLong := by
    rw [Rules.integer, Value.shown_int, if_pos hlong]
    rfl
  have hdraft (s : Setting) : renderDraft s (integerFile n) = .error .numberTooLong := by
    change (((do
      let head ← (liftM (Rules.integer (.scalar (.int n))) : Writer Draft)
      return [] ++ head ++ []).run s).run []).bind (fun out => .ok out.1) = _
    rw [hliteral]
    rfl
  rw [render, renderUnder, renderText, hdraft]
  rfl

/-- The grammar says nothing about the texts of strings, symbols and comments, and a number cannot
be written in the place of any of them.  Nor does it bound the integers, and those with too many
digits have no text. -/
theorem render_leafOfNumber :
    ((leafOfNumber .string .content).isGrammaticalFile = true ∧
        ¬ ∃ text, render {} (leafOfNumber .string .content) = .ok text) ∧
      ((leafOfNumber .symbol .value).isGrammaticalFile = true ∧
        ¬ ∃ text, render {} (leafOfNumber .symbol .value) = .ok text) ∧
      ((leafOfNumber .comment .text).isGrammaticalFile = true ∧
        ¬ ∃ text, render { stripComments := false } (leafOfNumber .comment .text) = .ok text) ∧
      (integerFile (-Int.ofNat (tenPow 4300))).isGrammaticalFile = true ∧
        ¬ ∃ text, render {} (integerFile (-Int.ofNat (tenPow 4300))) = .ok text := by
  have hlong : Decimal.isLong (-Int.ofNat (tenPow 4300)) = true :=
    Decimal.isLong_neg_ofNat (Nat.le_refl (tenPow Decimal.digitLimit))
  refine ⟨⟨rfl, ?_⟩, ⟨rfl, ?_⟩, ⟨rfl, ?_⟩, rfl, ?_⟩
  case refine_4 => rw [render_integerFile hlong]; rintro ⟨text, ⟨⟩⟩
  all_goals rintro ⟨text, ⟨⟩⟩

end TerseRuby
