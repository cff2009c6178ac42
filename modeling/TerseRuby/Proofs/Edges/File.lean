import TerseRuby.Proofs.Edges.Expression
import TerseRuby.Proofs.Rendering.Concatenation
import TerseRuby.Proofs.Tokens.Opening

/-!
# How the text of a file begins and ends

A file begins with its first statement and ends with its last one, because the separators and the
blank lines around them are not written at either end.  A statement is an expression, in its own
form or in parentheses, or one of two shorter forms: a call of output, which ends with its argument,
and a conditional with the condition at the end, which begins with the statement of its body.

* `Value.trimmed_statement`: a statement of a tidy tree begins and ends with ink, in whatever form;
* `Sequence.begins_write` and `Sequence.ends_write`: a sequence begins like its first statement and
  ends like its last one;
* `render_ends_cleanly`: a file has no blank and no separator at either end, but for what a comment
  at its end says.
-/

set_option autoImplicit false

namespace TerseRuby

open Lexer (isInk)
open Writer (EnsuresIn ensuresIn_pure ensuresIn_throw ensuresIn_lift ensuresIn_ite)

/-! ## Sequences -/

namespace Sequence

/-- A value as a statement of a sequence. -/
def written (v : Value) : Statement := ⟨v, v.rendition.write .statement⟩

variable {s : Setting}

/-- What is written after the first statement does not change how a sequence begins. -/
theorem begins_writeFrom {file : Bool} {x : Statement} {rest : List Statement}
    (h : EnsuresIn s (writeOne (file && rest.isEmpty) x) (Draft.BeginsWith isInk)) :
    EnsuresIn s (writeFrom file .start (x :: rest)) (Draft.BeginsWith isInk) :=
  h.bind fun _ hd => EnsuresIn.after fun _ => ensuresIn_pure (hd.append _)

/-- What is written before the last statement of a file does not change how it ends. -/
theorem ends_writeFrom {Q : Draft → Prop} (front : List Statement) {x : Statement}
    (h : EnsuresIn s (writeOne true x) Q) (state : SeparatorState) :
    EnsuresIn s (writeFrom true state (front ++ [x])) fun d => ∃ e f, d = e ++ f ∧ Q f := by
  induction front generalizing state with
  | nil =>
    exact h.bind fun d hd => ensuresIn_pure
      ⟨if state.needsSeparator then Draft.separator else [], d, List.append_nil _, hd⟩
  | cons y front ih =>
    rw [List.cons_append, writeFrom]
    refine EnsuresIn.after fun _ => (ih _).bind fun _ htail => ensuresIn_pure ?_
    obtain ⟨e, f, rfl, hf⟩ := htail
    exact ⟨_, f, (List.append_assoc _ e f).symm, hf⟩

/-- **A sequence begins like its first statement.** -/
theorem begins_write {file : Bool} {xs : List Statement} {x : Statement} {rest : List Statement}
    (hkept : kept s file Statement.value xs = x :: rest)
    (h : ∀ endsFile, EnsuresIn s (writeOne endsFile x) (Draft.BeginsWith isInk)) :
    EnsuresIn s (write file xs) (Draft.BeginsWith isInk) := by
  refine Writer.ensuresIn_read.bind ?_
  rintro s rfl
  rw [hkept]
  exact begins_writeFrom (h _)

/-- **A file ends like its last statement.** -/
theorem ends_write {Q : Draft → Prop} {xs front : List Statement} {x : Statement}
    (hkept : kept s true Statement.value xs = front ++ [x]) (h : EnsuresIn s (writeOne true x) Q) :
    EnsuresIn s (write true xs) fun d => ∃ e f, d = e ++ f ∧ Q f := by
  refine Writer.ensuresIn_read.bind ?_
  rintro s rfl
  rw [hkept]
  exact ends_writeFrom front h .start

/-! ### What is left at the ends -/

variable {α : Type} {p : α → Bool} {xs : List α}

/-- Neither end of a trimmed list is something that is trimmed. -/
theorem head?_trim : ∀ x ∈ (trim p xs).head?, p x = false := by
  intro x hx
  obtain ⟨rest, hrest⟩ : ∃ rest, trim p xs = x :: rest := List.head?_eq_some_iff.mp hx
  -- the trimmed list is the front of the one without the items at the beginning
  have hfront : x :: rest <+: xs.dropWhile p := by
    rw [← hrest, trim, ← List.reverse_suffix, List.reverse_reverse]
    exact List.dropWhile_suffix p
  obtain ⟨back, hback⟩ := hfront
  have hhead := List.head?_dropWhile_not p xs
  rw [← hback] at hhead
  exact hhead

theorem getLast?_trim : ∀ x ∈ (trim p xs).getLast?, p x = false := by
  intro x hx
  rw [trim, List.getLast?_reverse] at hx
  have hhead := List.head?_dropWhile_not p (xs.dropWhile p).reverse
  rw [hx] at hhead
  exact hhead

/-- A file neither begins nor ends with a blank line. -/
theorem isKind_blankLine_of_kept {vs : List Value} {v : Value}
    (h : v ∈ (kept s true id vs).head? ∨ v ∈ (kept s true id vs).getLast?) :
    v.isKind .blankLine = false :=
  h.elim (head?_trim v) (getLast?_trim v)

end Sequence

/-! ## Statements -/

/-- As a statement, the value is trimmed. -/
def Value.IsTrimmedStatement (s : Setting) (v : Value) : Prop :=
  EnsuresIn s (v.rendition.write .statement) Draft.IsTrimmed

namespace Sequence

variable {s : Setting}

/-- A body begins like the one statement of it that is written. -/
theorem begins_body {body v : Value} (honly : Rules.onlyStatement? s body = .ok (some v))
    (h : v.IsTrimmedStatement s) :
    EnsuresIn s (body.rendition.write (.body false)) (Draft.BeginsWith isInk) := by
  obtain ⟨vs, hvs, hkept, hproper⟩ := Rules.kept_of_onlyStatement? honly
  refine ensuresIn_body fun vs' hvs' => ?_
  cases hvs.symm.trans hvs'
  have hone : kept s false Statement.value (vs.map written) = [written v] := by
    rw [kept_map]
    exact congrArg (List.map written) hkept
  refine begins_write hone fun endsFile => ?_
  rw [writeOne_eq (show IsProper (written v).value from hproper)]
  exact EnsuresIn.imp h fun _ hd => hd.start

end Sequence

namespace Rules

open Draft (isTrimmed_append isTrimmed_parenthesized isTrimmed_word endsInInk_afterKeyword)

variable {s : Setting} {kind : Kind} {field : Field → Value} {c : Field → FieldRendition}

theorem trimmed_plainStatement (h : (expression (.node kind field) c).IsTrimmed) :
    EnsuresIn s (plainStatement (.node kind field) c) Draft.IsTrimmed :=
  EnsuresIn.after fun _ =>
    ensuresIn_ite (fun _ => EnsuresIn.after fun _ => ensuresIn_pure (isTrimmed_parenthesized _))
      fun _ => h.inSetting s

theorem trimmed_callStatement (h : PartsTidy .call c) :
    EnsuresIn s (callStatement (.node .call field) c) Draft.IsTrimmed := by
  refine EnsuresIn.after fun _ => EnsuresIn.after fun _ => EnsuresIn.after fun isOutput => ?_
  split
  · rename_i argument _ hitems
    have hargument : argument.IsInked :=
      h.each_inked (f := .arguments) rfl rfl argument (hitems ▸ List.mem_cons_self)
    exact (hargument.text.inSetting s).bind fun _ ht => ensuresIn_pure
      (isTrimmed_append (isTrimmed_word (h.isInked_name rfl rfl)).start
        (endsInInk_afterKeyword ht.stop))
  · exact trimmed_plainStatement (trimmed_expression h field (by decide))

/-- A conditional with the condition at the end begins like the statement of its body. -/
theorem trimmed_conditionalStatement {keyword : String}
    (hpredicate : (field .predicate).rendition.IsInked)
    (hplain : (expression (.node kind field) fun f => (field f).rendition).IsTrimmed)
    (hbody : ∀ v, onlyStatement? s (field .statements) = .ok (some v) → v.IsTrimmedStatement s) :
    EnsuresIn s (conditionalStatement keyword (.node kind field) fun f => (field f).rendition)
      Draft.IsTrimmed := by
  refine Writer.ensuresIn_read.bind ?_
  rintro s rfl
  simp only [Value.rendition_value]
  refine (ensuresIn_lift fun _ hend => hend).bind fun atEnd hend =>
    ensuresIn_ite (fun hcloses => ?_) fun _ => trimmed_plainStatement hplain
  rw [hcloses] at hend
  obtain ⟨v, honly⟩ : ∃ v, onlyStatement? s (field .statements) = .ok (some v) := by
    rw [isPostfix] at hend
    split at hend
    · cases hend
    · obtain ⟨only, honly, hend⟩ := exists_of_bind_eq_ok hend
      cases only with
      | none => cases hend
      | some v => exact ⟨v, honly⟩
  refine (Sequence.begins_body honly (hbody v honly)).bind fun _ hd =>
    (hpredicate.text.inSetting s).bind fun _ ht => ensuresIn_pure ?_
  exact isTrimmed_append ((hd.append _).append _) (endsInInk_afterKeyword ht.stop)

end Rules

namespace Value

variable {s : Setting}

/-- The statements of a value, in each of the ways in which it can have some. -/
structure HasTrimmedStatements (s : Setting) (v : Value) : Prop where
  /-- The value is one. -/
  itself : v.isKind .statements = false → v.IsTrimmedStatement s
  /-- Its elements are. -/
  each : ∀ e ∈ v.elements, e.isKind .statements = false → e.IsTrimmedStatement s
  /-- It is a body. -/
  body : ∀ vs, v.bodyStatements = .ok vs → ∀ w ∈ vs, w.IsTrimmedStatement s

/-- What is no node cannot be written as a statement. -/
theorem trimmed_of_not_isNode {v : Value} (h : v.isNode = false) : v.IsTrimmedStatement s := by
  cases v with
  | node kind field => cases h
  | _ => exact ensuresIn_throw _

theorem hasTrimmedStatements_of_elements {v : Value} (hleaf : v.isNode = false)
    (h : ∀ e ∈ v.elements, e.isNode = true → e.isKind .statements = false →
      e.IsTrimmedStatement s) : v.HasTrimmedStatements s := by
  refine ⟨fun _ => trimmed_of_not_isNode hleaf, fun e he hkind => ?_, fun vs hvs w hw =>
    trimmed_of_not_isNode (isNode_of_bodyStatements hleaf hvs hw)⟩
  cases hnode : e.isNode
  · exact trimmed_of_not_isNode hnode
  · exact h e he hnode hkind

/-- A node that is no sequence is trimmed as a statement if the statements of its fields are. -/
theorem trimmed_statement_of_parts {kind : Kind} {field : Field → Value}
    (h : (node kind field).isTidyTree = true)
    (hparts : ∀ f, kind.owns f = true → (field f).HasTrimmedStatements s)
    (hkind : kind ≠ .statements) : (node kind field).IsTrimmedStatement s := by
  have htidy := partsTidy h fun f hown => tidy_rendition (isTidyTree_field h hown)
  have hexpression := Rules.trimmed_expression htidy field hkind
  have hplain : EnsuresIn s (Rules.plainStatement (.node kind field) fun f => (field f).rendition)
      Draft.IsTrimmed := Rules.trimmed_plainStatement hexpression
  have hbody (hown : kind.owns .statements = true) (v : Value)
      (honly : Rules.onlyStatement? s (field .statements) = .ok (some v)) :
      v.IsTrimmedStatement s := by
    obtain ⟨vs, hvs, hv⟩ := Rules.mem_of_onlyStatement? honly
    exact (hparts .statements hown).body vs hvs v hv
  cases kind
  case ifThen | unlessThen =>
    exact Rules.trimmed_conditionalStatement (htidy.inked (f := .predicate) rfl rfl) hexpression
      (hbody rfl)
  case call => exact Rules.trimmed_callStatement htidy
  case statements => exact absurd rfl hkind
  all_goals exact hplain

theorem hasTrimmedStatements {v : Value} (h : v.isTidyTree = true) :
    v.HasTrimmedStatements s := by
  induction v using Value.induction with
  | seq items ih =>
    exact hasTrimmedStatements_of_elements rfl fun e he hnode =>
      (ih e he (all_preorder_item h he hnode)).itself
  | node kind field ih =>
    have hparts (f : Field) (hown : kind.owns f = true) := ih f (isTidyTree_field h hown)
    refine ⟨fun hkind => trimmed_statement_of_parts h hparts ?_, List.forall_mem_nil _,
      fun vs hvs w hw => ?_⟩
    · simpa [isKind, kind?] using hkind
    · by_cases hkind : kind = .statements
      · subst hkind
        have hnone := (Bool.and_eq_true_iff.mp (isTidyField_of_isTidyTree h (f := .body) rfl)).2
        rw [bodyStatements, sequence] at hvs
        split at hvs
        · cases hvs
          exact (hparts .body rfl).each w hw (by simpa using List.all_eq_true.mp hnone w hw)
        · cases hvs
      · cases (bodyStatements_node hkind field).symm.trans hvs
        rw [List.mem_singleton.mp hw]
        exact trimmed_statement_of_parts h hparts hkind
  -- what is neither a sequence nor a node has no nodes in it
  | _ =>
    refine hasTrimmedStatements_of_elements rfl fun e he hnode => ?_
    obtain ⟨items, hitems, _⟩ := exists_items_of_mem_elements he hnode
    cases hitems

/-- **A statement of a tidy tree begins and ends with ink.** -/
theorem trimmed_statement {v : Value} (h : v.isTidyTree = true)
    (hkind : v.isKind .statements = false) : v.IsTrimmedStatement s :=
  (hasTrimmedStatements h).itself hkind

/-- The statements of a tidy body are tidy. -/
theorem isTidyTree_of_bodyStatements {v w : Value} {vs : List Value} (h : v.isTidyTree = true)
    (hvs : v.bodyStatements = .ok vs) (hw : w ∈ vs) (hnode : w.isNode = true) :
    w.isTidyTree = true := by
  rw [bodyStatements.eq_def] at hvs
  split at hvs
  · cases hvs
    cases hw
  · rename_i field
    rw [sequence] at hvs
    split at hvs
    · cases hvs
      obtain ⟨items, hitems, hw⟩ := exists_items_of_mem_elements hw hnode
      have hbody : (field .body).isTidyTree = true := isTidyTree_field h rfl
      rw [hitems] at hbody
      exact all_preorder_item hbody hw hnode
    · cases hvs
  · cases hvs
    rwa [List.mem_singleton.mp hw]

end Value

/-! ## Files -/

namespace Text

variable {t : Text} {p : Char → Bool}

theorem BeginsWith.exists_spell (h : t.BeginsWith p) (o : Options) :
    ∃ c rest, t.spell o = c :: rest ∧ p c = true := by
  cases t with
  | nil => cases h
  | cons glyph t =>
    cases glyph with
    | char c => exact ⟨c, spell o t, rfl, h⟩
    | _ => cases h

theorem EndsInInk.exists_spell (h : t.EndsInInk) (o : Options) :
    ∃ front c, t.spell o = front ++ [c] ∧ isInk c = true := by
  rw [EndsInInk, endsWith] at h
  cases hlast : t.getLast? with
  | none =>
    rw [hlast] at h
    cases h
  | some glyph =>
    rw [hlast] at h
    obtain ⟨front, rfl⟩ := List.getLast?_eq_some_iff.mp hlast
    cases glyph with
    | char c => exact ⟨spell o front, c, spell_append o front [.char c], h⟩
    | _ => cases h

end Text

/-- How the text of a file begins and ends, given the statements that are written of it. -/
structure EndsCleanly (kept : List Value) (text : List Char) : Prop where
  /-- After a comment there is nothing, not even the end of its line. -/
  comment : ∀ last ∈ kept.getLast?, last.isKind .comment = true →
    ∃ said, (last.field .text).text? = some said ∧ '#' :: said.toList <:+ text
  /-- Otherwise there is neither white space nor a separator at the end. -/
  statement : (∀ last ∈ kept.getLast?, last.isKind .comment = false) →
    ∀ c ∈ text.getLast?, isInk c = true
  /-- If anything but blank lines is written, there is something at the beginning, and it is neither
  white space nor a separator. -/
  start : (∃ v ∈ kept, v.isKind .blankLine = false) →
    ∃ c rest, text = c :: rest ∧ isInk c = true

namespace Sequence

variable {s : Setting} {v : Value}

theorem isProper_of_isKind (hcomment : v.isKind .comment = false)
    (hblank : v.isKind .blankLine = false) : IsProper v := by
  cases v with
  | node kind field =>
    cases kind <;> first | rfl | exact Bool.noConfusion hcomment | exact Bool.noConfusion hblank
  | _ => rfl

theorem writeOne_comment {field : Field → Value} :
    writeOne true (written (.node .comment field)) =
      pure (Draft.lit "#" ++ Draft.word (field .text) ++ []) :=
  rfl

/-- Whatever is no blank line begins with ink. -/
theorem begins_writeOne (hblank : v.isKind .blankLine = false) (h : v.IsTrimmedStatement s)
    (endsFile : Bool) : EnsuresIn s (writeOne endsFile (written v)) (Draft.BeginsWith isInk) := by
  by_cases hcomment : v.isKind .comment = true
  · obtain ⟨field, rfl⟩ := Value.exists_of_isKind hcomment
    exact ensuresIn_pure (((Draft.beginsWith_lit (by decide)).append _).append _)
  · have hproper : IsProper (written v).value :=
      isProper_of_isKind (Bool.eq_false_iff.mpr hcomment) hblank
    rw [writeOne_eq hproper]
    exact EnsuresIn.imp h fun _ hd => hd.start

/-- Whatever is neither a comment nor a blank line ends with ink. -/
theorem ends_writeOne (hcomment : v.isKind .comment = false) (hblank : v.isKind .blankLine = false)
    (h : v.IsTrimmedStatement s) : EnsuresIn s (writeOne true (written v)) Draft.EndsInInk := by
  have hproper : IsProper (written v).value := isProper_of_isKind hcomment hblank
  rw [writeOne_eq hproper]
  exact EnsuresIn.imp h fun _ hd => hd.stop

theorem kept_written (s : Setting) (file : Bool) (vs : List Value) :
    kept s file Statement.value (vs.map written) = (kept s file id vs).map written :=
  kept_map s file Statement.value written vs

end Sequence

open Sequence (written kept_written begins_write ends_write begins_writeOne ends_writeOne
  isKind_blankLine_of_kept)

section Body

variable {s : Setting} {body : Value} {vs : List Value}

/-- The statements of a tidy body are trimmed. -/
theorem trimmed_of_kept (hbody : body.isTidyTree = true) (hvs : body.bodyStatements = .ok vs)
    {file : Bool} {v : Value} (hv : v ∈ Sequence.kept s file id vs) : v.IsTrimmedStatement s :=
  (Value.hasTrimmedStatements hbody).body vs hvs v (Sequence.kept_subset s file id vs hv)

/-- How a file begins. -/
theorem begins_file (hbody : body.isTidyTree = true) (hvs : body.bodyStatements = .ok vs)
    (hsome : Sequence.kept s true id vs ≠ []) :
    EnsuresIn s (Sequence.write true (vs.map written)) (Draft.BeginsWith isInk) := by
  obtain ⟨v, rest, hkept⟩ := List.exists_cons_of_ne_nil hsome
  have hv : v ∈ Sequence.kept s true id vs := hkept ▸ List.mem_cons_self
  have hblank : v.isKind .blankLine = false :=
    isKind_blankLine_of_kept (.inl (by rw [hkept]; rfl))
  have hfirst : Sequence.kept s true Sequence.Statement.value (vs.map written) =
      written v :: rest.map written := by
    rw [kept_written, hkept, List.map_cons]
  exact begins_write hfirst (begins_writeOne hblank (trimmed_of_kept hbody hvs hv))

/-- How a file ends, if there is anything in it. -/
theorem ends_file {Q : Draft → Prop} {v : Value}
    (hlast : (Sequence.kept s true id vs).getLast? = some v)
    (h : EnsuresIn s (Sequence.writeOne true (written v)) Q) :
    EnsuresIn s (Sequence.write true (vs.map written)) fun d => ∃ e f, d = e ++ f ∧ Q f := by
  obtain ⟨front, hfront⟩ := List.getLast?_eq_some_iff.mp hlast
  have hends : Sequence.kept s true Sequence.Statement.value (vs.map written) =
      front.map written ++ [written v] := by
    rw [kept_written, hfront, List.map_append, List.map_cons, List.map_nil]
  exact ends_write hends h

/-- A comment at the end of a file. -/
theorem ends_file_comment {field : Field → Value}
    (hlast : (Sequence.kept s true id vs).getLast? = some (.node .comment field)) :
    EnsuresIn s (Sequence.write true (vs.map written)) fun d =>
      ∃ e, d = e ++ (Draft.lit "#" ++ Draft.word (field .text)) := by
  have hcomment : EnsuresIn s (Sequence.writeOne true (written (.node .comment field)))
      (· = Draft.lit "#" ++ Draft.word (field .text)) := by
    rw [Sequence.writeOne_comment, List.append_nil]
    exact ensuresIn_pure rfl
  refine (ends_file hlast hcomment).imp ?_
  rintro _ ⟨e, _, rfl, rfl⟩
  exact ⟨e, rfl⟩

/-- A file with nothing in it. -/
theorem write_of_kept_eq_nil (hnone : Sequence.kept s true id vs = []) :
    EnsuresIn s (Sequence.write true (vs.map written)) (· = []) := by
  refine Writer.ensuresIn_read.bind ?_
  rintro s rfl
  rw [kept_written, hnone]
  exact ensuresIn_pure rfl

/-- The comments of a tidy body say something. -/
theorem exists_text_of_comment (hbody : body.isTidyTree = true)
    (hvs : body.bodyStatements = .ok vs) {field : Field → Value}
    (hv : .node .comment field ∈ Sequence.kept s true id vs) :
    ∃ said, (field .text).text? = some said := by
  have htree := Value.isTidyTree_of_bodyStatements hbody hvs
    (Sequence.kept_subset s true id vs hv) rfl
  have htext : (field .text).isText = true :=
    (Bool.and_eq_true_iff.mp (Value.isTidyField_of_isTidyTree htree (f := .text) rfl)).2
  exact Option.isSome_iff_exists.mp htext

/-- What is written of a tidy body as a file has clean ends. -/
theorem ensuresIn_endsCleanly (o : Options) (hbody : body.isTidyTree = true) :
    EnsuresIn s (body.rendition.write (.body true)) fun d => ∃ vs,
      body.bodyStatements = .ok vs ∧
        ∀ t, d.build = .ok t → EndsCleanly (Sequence.kept s true id vs) (t.spell o) := by
  refine Sequence.ensuresIn_body fun vs hvs l d l' hrun => ⟨vs, hvs, fun t ht => ?_⟩
  constructor
  case comment =>
    intro last hlast hcomment
    obtain ⟨field, rfl⟩ := Value.exists_of_isKind hcomment
    obtain ⟨said, hsaid⟩ := exists_text_of_comment hbody hvs (List.mem_of_getLast? hlast)
    obtain ⟨e, rfl⟩ := ends_file_comment hlast l d l' hrun
    rw [Draft.word, hsaid] at ht
    obtain ⟨u, v, -, hv, rfl⟩ := (Draft.build_append_eq_ok_iff _ _ t).mp ht
    cases (Draft.build_append (Draft.build_lit "#") (Draft.build_lit said)).symm.trans hv
    refine ⟨said, hsaid, u.spell o, ?_⟩
    rw [Text.spell_append, Text.spell_append, Text.lit, Text.lit, Text.spell_ofChars,
      Text.spell_ofChars]
    rfl
  case statement =>
    intro hstatement
    cases hlast : (Sequence.kept s true id vs).getLast? with
    | none =>
      cases write_of_kept_eq_nil (List.getLast?_eq_none_iff.mp hlast) l d l' hrun
      cases ht
      rintro c ⟨⟩
    | some v =>
      have hblank : v.isKind .blankLine = false := isKind_blankLine_of_kept (.inr hlast)
      have htrimmed := trimmed_of_kept hbody hvs (List.mem_of_getLast? hlast)
      obtain ⟨e, f, rfl, hf⟩ :=
        ends_file hlast (ends_writeOne (hstatement v hlast) hblank htrimmed) l d l' hrun
      obtain ⟨front, c, hspell, hc⟩ := ((hf.behind e) t ht).exists_spell o
      rw [hspell, List.getLast?_concat]
      rintro _ ⟨⟩
      exact hc
  case start =>
    rintro ⟨v, hv, -⟩
    have hbegins := begins_file hbody hvs (List.ne_nil_of_mem hv) l d l' hrun
    exact (hbegins t ht).exists_spell o

end Body

/-- **The text of a file has clean ends**: after a comment at its end comes nothing, any other text
ends with ink, and it begins with ink unless nothing but blank lines is left. -/
theorem render_ends_cleanly (o : Options) (tree : Value) (htidy : tree.isTidyTree = true)
    (text : String) (hrun : render o tree = .ok text ∨ renderRead o tree = .ok text) :
    ∃ vs, tree.fileBody.bodyStatements = .ok vs ∧
      EndsCleanly (Sequence.kept (Setting.ofOptions o) true id vs) text.toList := by
  have hbody : tree.fileBody.isTidyTree = true := by
    unfold Value.fileBody
    split
    · exact Value.isTidyTree_field htidy rfl
    · rfl
    · exact htidy
  have hunder (s : Setting) (hrun : renderUnder s o tree = .ok text) : ∃ vs,
      tree.fileBody.bodyStatements = .ok vs ∧
        EndsCleanly (Sequence.kept s true id vs) text.toList := by
    obtain ⟨d, t, hdraft, ht, rfl⟩ := (renderUnder_eq_ok_iff s o tree text).mp hrun
    obtain ⟨⟨d', l⟩, hwrite, hd⟩ := exists_of_bind_eq_ok hdraft
    cases hd
    obtain ⟨vs, hvs, hclean⟩ := ensuresIn_endsCleanly o hbody [] d l hwrite
    rw [String.toList_ofList]
    exact ⟨vs, hvs, hclean t ht⟩
  -- which values count as one does not matter to what is kept
  exact hrun.elim (hunder (Setting.ofOptions o)) (hunder (Setting.ofText o))

/-- A call between blank lines, and a comment that ends with a blank. -/
def callAndComment : Value :=
  .ofFields .program [(.statements, .ofFields .statements [(.body, .seq
    [.ofFields .blankLine [],
      .ofFields .call [(.name, .scalar (.str "puts")),
        (.arguments, .seq [.ofFields .string [(.content, .scalar (.str "a "))]])],
      .ofFields .comment [(.text, .scalar (.str "b "))],
      .ofFields .blankLine []])])]

theorem render_ends_cleanly_comment :
    let o : Options := { stripComments := false, stripBlankLines := false }
    callAndComment.isTidyTree = true ∧ render o callAndComment = .ok "puts\"a \";#b " ∧
      ∃ vs, callAndComment.fileBody.bodyStatements = .ok vs ∧
        EndsCleanly (Sequence.kept (Setting.ofOptions o) true id vs) "puts\"a \";#b ".toList := by
  intro o
  have htidy : callAndComment.isTidyTree = true := by decide
  have hrun : render o callAndComment = .ok "puts\"a \";#b " := by decide
  exact ⟨htidy, hrun, render_ends_cleanly o callAndComment htidy _ (.inl hrun)⟩
end TerseRuby
