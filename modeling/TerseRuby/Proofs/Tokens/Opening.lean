import TerseRuby.Proofs.Locals.Rules
import TerseRuby.Proofs.Tokens.Beginning
import TerseRuby.Proofs.Tokens.Rules
import TerseRuby.Proofs.Writing

/-!
# How a statement begins

A brace at the beginning of a statement would be read as a block, so a statement whose text would
begin with a hash is put in parentheses.  `Value.startsWithBrace` decides about this from the tree,
by following the left edge.  It follows it further than it has to, past operands that get
parentheses of their own, but it stops at a constant in a namespace, where the left edge goes on.

So a statement does begin with a brace if the left edge leads through such a constant to a hash
(`Value.beginsInNamespace`), as in `{}::X`, or if it is a conditional with the condition at the end
whose body is a statement of that sort.  `Value.statement_begins_with_brace_iff` says that these are
all.
-/

set_option autoImplicit false

namespace TerseRuby

/-! ## Statements that begin with a brace -/

namespace Value

/-- Whether the left edge of an expression leads into the namespace of a constant. -/
def beginsInNamespace : Value → Bool
  | .node kind field =>
    match leftField? kind field with
    | some f => kind == .constantPath || beginsInNamespace (field f)
    | none => false
  | _ => false

/-- The first statement of a body that is written under a setting. -/
def IsFirst (s : Setting) (body v : Value) : Prop :=
  ∃ vs rest, body.bodyStatements = .ok vs ∧ Sequence.kept s false id vs = v :: rest

/-- The statements that begin with a brace under a setting. -/
inductive OpensBrace (s : Setting) : Value → Prop
  /-- A hash at the left edge, in the namespace of a constant. -/
  | edge {v : Value} (hnamespace : v.beginsInNamespace = true)
      (hhash : v.leftmost.isKind .hash = true) : OpensBrace s v
  /-- A sequence, in the place of a statement, whose first statement begins with a brace. -/
  | sequence {field : Field → Value} {first : Value}
      (hfirst : IsFirst s (.node .statements field) first) (h : OpensBrace s first) :
      OpensBrace s (.node .statements field)
  /-- A conditional with the condition at the end, after a statement that begins with a brace. -/
  | conditional {kind : Kind} {field : Field → Value} {first : Value}
      (hkind : kind = .ifThen ∨ kind = .unlessThen) (hend : Rules.isPostfix s field = .ok true)
      (hfirst : IsFirst s (field .statements) first) (h : OpensBrace s first) :
      OpensBrace s (.node kind field)

/-- A body begins with a brace if its first statement does. -/
def BodyOpensBrace (s : Setting) (body : Value) : Prop :=
  ∃ first, IsFirst s body first ∧ OpensBrace s first

/-! ## What the question about the tree finds -/

variable {kind : Kind} {field : Field → Value} {f : Field}

/-- A call that begins with its receiver is no operator before it. -/
theorem unary?_of_receiverEnclosed? (h : (receiverEnclosed? field).isSome = true) :
    (field .receiver).isNull = false ∧ CallShape.unary? field = .ok none := by
  rw [receiverEnclosed?] at h
  split at h
  · cases h
  · rename_i hpresent
    refine ⟨Bool.eq_false_iff.mpr hpresent, ?_⟩
    rw [CallShape.of, if_neg hpresent] at h
    cases hunary : CallShape.unary? field with
    | error fault =>
      rw [hunary] at h
      cases h
    | ok op =>
      cases op with
      | none => rfl
      | some op =>
        rw [hunary] at h
        cases h

/-- The left edge is followed everywhere but into a namespace. -/
theorem startsWithBrace_of_leftField? (h : leftField? kind field = some f)
    (hkind : kind ≠ .constantPath) :
    (node kind field).startsWithBrace = (field f).startsWithBrace := by
  unfold leftField? at h
  split at h
  · split at h
    · rename_i henclosed
      cases h
      obtain ⟨hpresent, hunary⟩ := unary?_of_receiverEnclosed? (by rw [henclosed]; rfl)
      rw [startsWithBrace, hpresent, hunary]
      rfl
    · cases h
  · split at h <;> cases h
    rfl
  · split at h <;> cases h
    rfl
  · split at h <;> cases h
    rfl
  · cases h
    rfl
  · exact absurd rfl hkind
  · cases h

theorem startsWithBrace_of_beginsInNamespace {v : Value} (h : v.beginsInNamespace = true) :
    v.startsWithBrace ≠ .ok true := by
  induction v using Value.induction with
  | node kind field ih =>
    rw [beginsInNamespace] at h
    split at h
    · rename_i f hleft
      by_cases hkind : kind = .constantPath
      · rw [hkind]
        intro hbrace
        cases hbrace
      · rw [startsWithBrace_of_leftField? hleft hkind]
        exact ih f ((Bool.or_eq_true_iff.mp h).resolve_left (by simpa using hkind))
    · cases h
  | _ => cases h

theorem beginsInNamespace_of_leftmost {v : Value} (hhash : v.leftmost.isKind .hash = true)
    (h : v.startsWithBrace = .ok false) : v.beginsInNamespace = true := by
  induction v using Value.induction with
  | node kind field ih =>
    rw [beginsInNamespace]
    cases hleft : leftField? kind field with
    | none =>
      rw [leftmost_of_none hleft] at hhash
      have hkind : kind = .hash := by simpa [isKind, kind?] using hhash
      rw [hkind] at h
      cases h
    | some f =>
      by_cases hkind : kind = .constantPath
      · simp [hkind]
      · rw [startsWithBrace_of_leftField? hleft hkind] at h
        rw [leftmost_of_some hleft] at hhash
        simpa [hkind] using ih f hhash h
  | _ => cases hhash

end Value

/-! ## Texts and drafts -/

/-- The text begins with a brace just if something holds. -/
def Text.Opens (o : Options) (b : Prop) (t : Text) : Prop := (t.spell o).head? = some '\x7b' ↔ b

/-- If the draft has a text, then one that begins with a brace just if something holds. -/
def Draft.Opens (o : Options) (b : Prop) (d : Draft) : Prop :=
  ∀ t, d.build = .ok t → t.Opens o b

variable {o : Options} {b : Prop}

namespace Text

variable {p : Char → Bool} {t u : Text}

/-- What is known of the first character may decide it. -/
theorem BeginsWith.opens (h : t.BeginsWith p) (hp : ∀ ch, p ch = true → (ch = '\x7b' ↔ b)) :
    t.Opens o b := by
  cases t with
  | nil => cases h
  | cons glyph t =>
    cases glyph with
    | char ch =>
      have hhead : Text.Opens o (ch = '\x7b') (.char ch :: t) := by
        simp [Text.Opens, Text.spell, Glyph.spell]
      exact hhead.trans (hp ch h)
    | _ => cases h

/-- What comes after a text does not count, unless nothing is written of the text. -/
theorem Opens.append (ht : t.Opens o b) (hu : u.Opens o False) : Text.Opens o b (t ++ u) := by
  unfold Text.Opens at *
  rw [spell_append]
  cases hspell : t.spell o with
  | nil =>
    rw [hspell] at ht
    simpa using hu.trans (by simpa using ht)
  | cons ch rest =>
    rw [hspell] at ht
    simpa using ht

theorem opens_nil : Text.Opens o False [] := by
  simp [Text.Opens, Text.spell]

theorem opens_separator (t : Text) : Text.Opens o False (.separator :: t) := by
  have hne : o.separator ≠ '\x7b' := by
    rw [Options.separator]
    split <;> decide
  simpa [Text.Opens, Text.spell, Glyph.spell] using hne

end Text

namespace Draft

variable {p : Char → Bool} {d e : Draft}

theorem BeginsWith.opens (h : d.BeginsWith p) (hp : ∀ ch, p ch = true → (ch = '\x7b' ↔ b)) :
    d.Opens o b :=
  fun t ht => (h t ht).opens hp

/-- A draft that begins with any other character. -/
theorem BeginsWith.opens_not (h : d.BeginsWith (· != '\x7b')) (hb : ¬b) : d.Opens o b :=
  h.opens fun _ hch => iff_of_false (by simpa using hch) hb

theorem Opens.append (hd : d.Opens o b) (he : e.Opens o False) : Draft.Opens o b (d ++ e) := by
  intro t ht
  obtain ⟨u, v, hu, hv, rfl⟩ := (build_append_eq_ok_iff d e t).mp ht
  exact (hd u hu).append (he v hv)

theorem opens_nil : Draft.Opens o False [] := by
  intro t ht
  cases ht
  exact Text.opens_nil

theorem opens_separator (d : Draft) : Draft.Opens o False (separator ++ d) := by
  intro t ht
  obtain ⟨u, -, rfl⟩ := (build_text_cons_eq_ok_iff [.separator] d t).mp ht
  exact Text.opens_separator u

end Draft

/-! ## Sequences of statements -/

namespace Sequence

open Writer (EnsuresIn ensuresIn_pure)

variable {s : Setting}

/-- A comment begins with its sign, and a blank line is nothing but a line break. -/
theorem opens_writeOne_trivia {x : Statement} (h : ¬IsProper x.value) (endsFile : Bool) :
    EnsuresIn s (writeOne endsFile x) (Draft.BeginsWith (· != '\x7b')) := by
  unfold writeOne
  split
  · exact ensuresIn_pure ((Draft.beginsWith_lit (by decide)).append _ |>.append _)
  · exact ensuresIn_pure (Draft.beginsWith_lit (by decide))
  · rename_i hcomment hblank
    refine absurd ?_ h
    unfold IsProper
    cases hvalue : x.value with
    | node kind field =>
      cases kind
      case comment => exact absurd hvalue (hcomment field)
      case blankLine => exact absurd hvalue (hblank field)
      all_goals rfl
    | _ => rfl

theorem opens_writeFrom {state : SeparatorState} (h : state.needsSeparator = true) (file : Bool)
    (xs : List Statement) : EnsuresIn s (writeFrom file state xs) (Draft.Opens o False) := by
  cases xs with
  | nil => exact ensuresIn_pure Draft.opens_nil
  | cons x rest =>
    refine EnsuresIn.after fun _ => EnsuresIn.after fun _ => ensuresIn_pure ?_
    rw [h, if_pos rfl, List.append_assoc]
    exact Draft.opens_separator _

/-- A sequence begins with a brace if its first statement is none of the trivia and begins with a
brace. -/
theorem opens_write {file : Bool} {xs : List Statement} (opens : Statement → Prop)
    (htrivia : ∀ x, opens x → IsProper x.value)
    (h : ∀ x ∈ xs, IsProper x.value → EnsuresIn s x.write (Draft.Opens o (opens x))) :
    EnsuresIn s (write file xs)
      (Draft.Opens o (∃ x rest, kept s file Statement.value xs = x :: rest ∧ opens x)) := by
  refine Writer.ensuresIn_read.bind ?_
  rintro s rfl
  have hsubset := kept_subset s file Statement.value xs
  cases hkept : kept s file Statement.value xs with
  | nil =>
    rw [show (∃ x rest, [] = x :: rest ∧ opens x) ↔ False by simp]
    exact ensuresIn_pure Draft.opens_nil
  | cons x rest =>
    rw [hkept] at hsubset
    rw [show (∃ x' rest', x :: rest = x' :: rest' ∧ opens x') ↔ opens x by simp, writeFrom]
    by_cases hproper : IsProper x.value
    · rw [writeOne_eq hproper]
      refine (h x (hsubset List.mem_cons_self) hproper).bind fun _ hd =>
        (opens_writeFrom (needsSeparator_after hproper) _ _).bind fun _ he =>
          ensuresIn_pure (Draft.Opens.append ?_ he)
      exact hd
    · refine (opens_writeOne_trivia hproper _).bind fun _ hd => EnsuresIn.after fun _ =>
        ensuresIn_pure ?_
      exact Draft.BeginsWith.opens_not (Draft.BeginsWith.append hd _)
        fun hx => hproper (htrivia x hx)

/-- A body is a sequence of its statements. -/
theorem ensuresIn_body {file : Bool} {v : Value} {Q : Draft → Prop}
    (h : ∀ vs, v.bodyStatements = .ok vs →
      EnsuresIn s (write file (vs.map fun w => ⟨w, w.rendition.write .statement⟩)) Q) :
    EnsuresIn s (v.rendition.write (.body file)) Q := by
  cases v with
  | scalar value =>
    cases value with
    | null => cases file <;> exact h [] rfl
    | _ => exact h [_] rfl
  | node kind field =>
    by_cases hkind : kind = .statements
    · subst hkind
      refine Writer.EnsuresIn.bind
        (Q := fun items => items = (field .body).rendition.elements ∧
          (field .body).sequence = .ok (field .body).elements)
        (Writer.ensuresIn_ite (fun hcollection => ensuresIn_pure ⟨rfl, ?_⟩)
          fun _ => Writer.ensuresIn_throw _) ?_
      · rw [Value.rendition_value] at hcollection
        exact if_pos hcollection
      · rintro _ ⟨rfl, hsequence⟩
        rw [Value.rendition_elements_eq, List.map_map]
        simpa only [Function.comp_def, Value.rendition_value] using h _ hsequence
    · have hkind' : (Value.node kind field).isKind .statements = false := by
        simpa [Value.isKind, Value.kind?] using hkind
      change EnsuresIn s (Rules.body file (.node kind field) fun f => (field f).rendition) Q
      rw [Rules.body, hkind']
      exact h [_] (Value.bodyStatements_node hkind field)
  | _ => exact h [_] rfl

end Sequence

/-! ## Statements -/

namespace Value

variable {s : Setting} {kind : Kind} {field : Field → Value}

theorem opensBrace_of_isPostfix (hkind : kind = .ifThen ∨ kind = .unlessThen)
    (hend : Rules.isPostfix s field = .ok true) :
    OpensBrace s (.node kind field) ↔ BodyOpensBrace s (field .statements) := by
  constructor
  · intro h
    cases h with
    | edge hnamespace => obtain rfl | rfl := hkind <;> cases hnamespace
    | sequence => obtain hkind | hkind := hkind <;> cases hkind
    | conditional _ _ hfirst hbody => exact ⟨_, hfirst, hbody⟩
  · intro ⟨first, hfirst, hbody⟩
    exact .conditional hkind hend hfirst hbody

theorem opensBrace_statements :
    OpensBrace s (.node .statements field) ↔ BodyOpensBrace s (.node .statements field) := by
  constructor
  · intro h
    cases h with
    | edge hnamespace => cases hnamespace
    | sequence hfirst hbody => exact ⟨_, hfirst, hbody⟩
    | conditional hkind => obtain hkind | hkind := hkind <;> cases hkind
  · intro ⟨first, hfirst, hbody⟩
    exact .sequence hfirst hbody

/-- Any other statement is one expression. -/
theorem opensBrace_expression (hstatements : kind ≠ .statements)
    (hend : kind = .ifThen ∨ kind = .unlessThen → Rules.isPostfix s field ≠ .ok true) :
    OpensBrace s (.node kind field) ↔ (Value.node kind field).beginsInNamespace = true ∧
      (Value.node kind field).leftmost.isKind .hash = true := by
  constructor
  · intro h
    cases h with
    | edge hnamespace hhash => exact ⟨hnamespace, hhash⟩
    | sequence => exact absurd rfl hstatements
    | conditional hkind hcloses => exact absurd hcloses (hend hkind)
  · intro ⟨hnamespace, hhash⟩
    exact .edge hnamespace hhash

/-- Comments and blank lines do not begin with a brace. -/
theorem isProper_of_opensBrace {v : Value} (h : v.OpensBrace s) : Sequence.IsProper v := by
  cases h with
  | edge hnamespace =>
    cases v with
    | node kind field => cases kind <;> first | rfl | cases hnamespace
    | _ => rfl
  | sequence => rfl
  | conditional hkind => obtain rfl | rfl := hkind <;> rfl

end Value

namespace Rules

open Writer (EnsuresIn ensuresIn_pure ensuresIn_ite ensuresIn_lift)

variable {s : Setting} {kind : Kind} {field : Field → Value}

theorem opens_plainStatement (h : (Value.node kind field).isNamedTree = true)
    (hkind : kind ≠ .statements) :
    EnsuresIn s (plainStatement (.node kind field) fun f => (field f).rendition)
      (Draft.Opens o ((Value.node kind field).beginsInNamespace = true ∧
        (Value.node kind field).leftmost.isKind .hash = true)) := by
  refine (ensuresIn_lift fun _ hbrace => hbrace).bind fun brace hbrace =>
    ensuresIn_ite (fun hparens => ?_) fun hbare => ?_
  · rw [hparens] at hbrace
    exact EnsuresIn.after fun _ =>
      ensuresIn_pure ((Draft.beginsWith_parenthesized _ (by decide)).opens_not
        fun hedge => Value.startsWithBrace_of_beginsInNamespace hedge.1 hbrace)
  · rw [Bool.eq_false_iff.mpr hbare] at hbrace
    have hbegins := Value.begins_leftmost h (by simpa [Value.isKind, Value.kind?] using hkind)
    refine (hbegins.inSetting s).imp fun d hd => hd.opens fun ch hch => ?_
    -- a leftmost part begins with a brace if it is a hash, and then there was a namespace
    have hhash : (ch == '\x7b') = (Value.node kind field).leftmost.isKind .hash :=
      eq_of_beq (Bool.and_eq_true_iff.mp (Bool.and_eq_true_iff.mp hch).1).2
    rw [← hhash, beq_iff_eq]
    refine ⟨fun heq => ⟨?_, heq⟩, And.right⟩
    exact Value.beginsInNamespace_of_leftmost (by rw [← hhash, heq]; rfl) hbrace

/-- Words that may be followed by a blank do not begin with a brace. -/
theorem beginsWith_keyword {keyword : String} (h : Text.isKeyword keyword = true) :
    (Draft.lit keyword).BeginsWith (· != '\x7b') := by
  obtain ⟨hlast, hplain⟩ := Bool.and_eq_true_iff.mp h
  refine Draft.beginsWith_lit ?_
  cases hkeyword : keyword.toList with
  | nil =>
    rw [hkeyword] at hlast
    cases hlast
  | cons ch rest =>
    rw [hkeyword] at hplain
    have hch : Lexer.isPlain ch = true := List.all_eq_true.mp hplain ch List.mem_cons_self
    refine bne_iff_ne.mpr ?_
    rintro rfl
    exact absurd hch (by decide)

theorem opens_callStatement (h : (Value.node .call field).isNamedTree = true) :
    EnsuresIn s (callStatement (.node .call field) fun f => (field f).rendition)
      (Draft.Opens o ((Value.node .call field).OpensBrace s)) := by
  rw [Value.opensBrace_expression (by decide) (by simp)]
  refine Writer.ensuresIn_read.bind ?_
  rintro s rfl
  refine EnsuresIn.after fun locals => ?_
  simp only [Value.rendition_value]
  refine (ensuresIn_lift fun _ houtput => houtput).bind fun isOutput houtput => ?_
  split
  · obtain ⟨name, hname, hkeyword⟩ := isKeyword_of_isOutputCall houtput
    have hreceiver := (of_isOutputCall houtput).1
    refine EnsuresIn.after fun _ => ensuresIn_pure ?_
    rw [Draft.word, Value.rendition_value, hname]
    refine ((beginsWith_keyword hkeyword).append _).opens_not fun hedge => ?_
    rw [Value.beginsInNamespace, Value.leftField?, Value.receiverEnclosed?, if_pos hreceiver]
      at hedge
    cases hedge.1
  · exact opens_plainStatement h (by decide)

theorem opens_conditionalStatement {keyword : String}
    (h : (Value.node kind field).isNamedTree = true)
    (hkind : kind = .ifThen ∨ kind = .unlessThen)
    (hbody : EnsuresIn s ((field .statements).rendition.write (.body false))
      (Draft.Opens o ((field .statements).BodyOpensBrace s))) :
    EnsuresIn s (conditionalStatement keyword (.node kind field) fun f => (field f).rendition)
      (Draft.Opens o ((Value.node kind field).OpensBrace s)) := by
  have hstatements : kind ≠ .statements := by
    obtain rfl | rfl := hkind <;> decide
  refine Writer.ensuresIn_read.bind ?_
  rintro s rfl
  simp only [Value.rendition_value]
  refine (ensuresIn_lift fun _ hend => hend).bind fun atEnd hend =>
    ensuresIn_ite (fun hcloses => ?_) fun hplain => ?_
  · rw [hcloses] at hend
    rw [Value.opensBrace_of_isPostfix hkind hend]
    refine hbody.bind fun _ hd => EnsuresIn.after fun _ => ensuresIn_pure ?_
    simp only [List.append_assoc]
    exact hd.append (((Draft.beginsWith_lit (by decide)).append _).opens_not not_false)
  · rw [Value.opensBrace_expression hstatements fun _ hend' => ?_]
    · exact opens_plainStatement h hstatements
    · exact hplain (Except.ok.inj (hend.symm.trans hend'))

end Rules

/-! ## Trees -/

/-- As a statement, the value begins with a brace if it is one of those that do. -/
def Rendition.Opens (o : Options) (s : Setting) (r : Rendition) : Prop :=
  Writer.EnsuresIn s (r.write .statement) (Draft.Opens o (r.value.OpensBrace s))

/-- The same for the value of a field, for a body that it is, and for its elements. -/
structure FieldRendition.Opens (o : Options) (s : Setting) (r : FieldRendition) : Prop where
  /-- As a statement. -/
  statement : r.toRendition.Opens o s
  /-- As a body. -/
  body : Writer.EnsuresIn s (r.write (.body false)) (Draft.Opens o (r.value.BodyOpensBrace s))
  /-- The elements. -/
  each : ∀ e ∈ r.elements, e.Opens o s

namespace Value

open Writer (EnsuresIn ensuresIn_throw)

variable {s : Setting}

/-- A body begins like the first of its statements. -/
theorem opens_body {v : Value} (h : ∀ vs, v.bodyStatements = .ok vs →
      ∀ w ∈ vs, w.rendition.toRendition.Opens o s) :
    EnsuresIn s (v.rendition.write (.body false))
      (Draft.Opens o (v.rendition.value.BodyOpensBrace s)) := by
  refine Sequence.ensuresIn_body fun vs hvs => ?_
  let written (w : Value) : Sequence.Statement := ⟨w, w.rendition.write .statement⟩
  have hkept : Sequence.kept s false Sequence.Statement.value (vs.map written) =
      (Sequence.kept s false id vs).map written := Sequence.kept_map s false _ written vs
  have hwrite : EnsuresIn s (Sequence.write false (vs.map written)) _ :=
    Sequence.opens_write (o := o) (fun x => x.value.OpensBrace s)
      (fun _ => isProper_of_opensBrace) fun x hx _ => by
        obtain ⟨w, hw, rfl⟩ := List.mem_map.mp hx
        simpa only [Rendition.Opens, rendition_value] using h vs hvs w hw
  refine hwrite.imp fun d hd t ht => (hd t ht).trans ?_
  rw [hkept, rendition_value]
  constructor
  · rintro ⟨x, rest, hcons, hopens⟩
    obtain ⟨w, ws, hw, rfl, -⟩ := List.map_eq_cons_iff.mp hcons
    exact ⟨w, ⟨vs, ws, hvs, hw⟩, hopens⟩
  · rintro ⟨w, ⟨vs', ws, hvs', hw⟩, hopens⟩
    cases hvs.symm.trans hvs'
    exact ⟨written w, ws.map written, by rw [hw, List.map_cons], hopens⟩

/-- What is no node cannot be written as a statement. -/
theorem opens_of_not_isNode {v : Value} (h : v.isNode = false) :
    v.rendition.toRendition.Opens o s := by
  cases v with
  | node kind field => cases h
  | _ => exact Writer.ensuresIn_throw _

/-- What is no node opens with no brace if those of its elements do not that are nodes. -/
theorem opens_of_elements {v : Value} (hleaf : v.isNode = false)
    (h : ∀ e ∈ v.elements, e.isNode = true → e.rendition.toRendition.Opens o s) :
    v.rendition.Opens o s := by
  refine ⟨opens_of_not_isNode hleaf, opens_body fun vs hvs w hw =>
    opens_of_not_isNode (isNode_of_bodyStatements hleaf hvs hw), fun e he => ?_⟩
  rw [rendition_elements_eq] at he
  obtain ⟨item, hitem, rfl⟩ := List.mem_map.mp he
  cases hnode : item.isNode
  · exact opens_of_not_isNode hnode
  · exact h item hitem hnode

end Value

namespace Rules

open Writer (EnsuresIn)

variable {s : Setting} {kind : Kind} {field : Field → Value}

/-- The statements of a sequence are the elements of its one field. -/
theorem opens_sequence (hparts : (field .body).rendition.Opens o s) :
    EnsuresIn s ((Value.node .statements field).rendition.write (.body false))
      (Draft.Opens o ((Value.node .statements field).BodyOpensBrace s)) := by
  refine Value.opens_body fun vs hvs w hw => hparts.each _ ?_
  rw [Value.rendition_elements_eq]
  refine List.mem_map_of_mem ?_
  rw [Value.bodyStatements, Value.sequence] at hvs
  split at hvs
  · cases hvs
    exact hw
  · cases hvs

/-- **A statement begins with a brace if its parts say so.** -/
theorem opens_statement (h : (Value.node kind field).isNamedTree = true)
    (hparts : ∀ f, kind.owns f = true → (field f).rendition.Opens o s) :
    (Value.node kind field).rendition.toRendition.Opens o s := by
  have hplain (hstatements : kind ≠ .statements)
      (hcond : ¬(kind = .ifThen ∨ kind = .unlessThen)) :
      EnsuresIn s (plainStatement (.node kind field) fun f => (field f).rendition)
        (Draft.Opens o ((Value.node kind field).OpensBrace s)) := by
    rw [Value.opensBrace_expression hstatements fun hcond' => absurd hcond' hcond]
    exact opens_plainStatement h hstatements
  have hbody (hown : kind.owns .statements = true) := (hparts .statements hown).body
  simp only [Value.rendition_value] at hbody
  cases kind
  case ifThen => exact opens_conditionalStatement h (.inl rfl) (hbody rfl)
  case unlessThen => exact opens_conditionalStatement h (.inr rfl) (hbody rfl)
  case call => exact opens_callStatement h
  case statements =>
    have hstatement := opens_sequence (hparts .body rfl)
    rw [← Value.opensBrace_statements] at hstatement
    exact hstatement
  all_goals exact hplain (by decide) (by decide)

end Rules

namespace Value

variable {s : Setting}

theorem opens_rendition {v : Value} (h : v.isNamedTree = true) : v.rendition.Opens o s := by
  induction v using Value.induction with
  | seq items ih =>
    exact opens_of_elements rfl fun e he hnode =>
      (ih e he (all_preorder_item h he hnode)).statement
  | node kind field ih =>
    have hparts (f : Field) (hown : kind.owns f = true) := ih f (isNamedTree_field h hown)
    have hself := Rules.opens_statement h hparts
    refine ⟨hself, ?_, List.forall_mem_nil _⟩
    by_cases hkind : kind = .statements
    · subst hkind
      exact Rules.opens_sequence (hparts .body rfl)
    · refine opens_body fun vs hvs w hw => ?_
      cases (bodyStatements_node hkind field).symm.trans hvs
      rw [List.mem_singleton.mp hw]
      exact hself
  -- what is neither a sequence nor a node has no nodes in it
  | _ =>
    refine opens_of_elements rfl fun e he hnode => ?_
    obtain ⟨items, hitems, _⟩ := exists_items_of_mem_elements he hnode
    cases hitems

/-- **Which statements begin with a brace**: those whose left edge leads by way of a namespace to a
hash, and conditionals with the condition at the end after such a statement. -/
theorem statement_begins_with_brace_iff (v : Value) (hnamed : v.isNamedTree = true)
    (o : Options) (s : Setting) (l l' : Locals) (text : Text)
    (hrun : ((v.rendition.text .statement).run s).run l = .ok (text, l')) :
    (text.spell o).head? = some '\x7b' ↔ v.OpensBrace s := by
  have hopens := (opens_rendition (o := o) (s := s) hnamed).statement
  have htext := hopens.built (fun _ hd t ht => hd t ht) l text l' hrun
  rwa [rendition_value] at htext

/-- A constant in the namespace that an empty hash would be. -/
def hashNamespace : Value :=
  .ofFields .constantPath
    [(.parent, .ofFields .hash [(.elements, .seq [])]), (.name, .scalar (.str "X"))]

theorem statement_begins_with_brace_iff_namespace :
    hashNamespace.isNamedTree = true ∧
      ((hashNamespace.rendition.text .statement).run (Setting.ofOptions .default)).run [] =
        .ok (Text.lit "\x7b\x7d::X", []) ∧
      hashNamespace.OpensBrace (Setting.ofOptions .default) := by
  have hnamed : hashNamespace.isNamedTree = true := by decide
  have hrun : ((hashNamespace.rendition.text .statement).run (Setting.ofOptions .default)).run [] =
      .ok (Text.lit "\x7b\x7d::X", []) := rfl
  exact ⟨hnamed, hrun,
    (statement_begins_with_brace_iff hashNamespace hnamed .default _ [] [] _ hrun).mp rfl⟩

/-- The namespace of a constant is not looked at, and the statement begins with the hash. -/
theorem render_hash_namespace :
    hashNamespace.isSpelledTree = true ∧
      render .default hashNamespace = .ok "\x7b\x7d::X" := by
  decide

end Value
end TerseRuby
