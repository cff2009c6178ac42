import TerseRuby.Proofs.Expression.Tree
import TerseRuby.Proofs.Statement.Syntax

/-!
# The trees of statements

`Stmt.IsTree part v` says that the tree `v` is some part of a program: a statement, the statements
of a body, a clause, or several clauses in a field.  As for expressions, only the node kinds and the
fields that the rules read are fixed.  Where trees may differ and mean the same, each of them is a
tree of the part: a body may be absent, a sequence of statements or a single statement
(`Sequence.IsBody`), and a parameter list without parameters may be absent or empty.

Most clauses are a header and a body.  `Header.Encloses h v b` says that the node `v` is such a
clause, whose body is `b`; the kinds of nodes differ only in the fields that the header is made of.
A conditional, a case distinction and a block with exception handling have further clauses in other
fields.  A further condition is itself a conditional, in the field for what comes otherwise.
-/

set_option autoImplicit false

namespace TerseRuby

open Sequence (IsBody IsProper)

/-- The tree of a variable. -/
abbrev IsAtom (x : Name) (v : Value) : Prop := Expr.IsTree (.var x) v

/-! ## The parts of headers -/

namespace Header

/-- The tree of a constant. -/
inductive IsConstant : Name → Value → Prop where
  | mk {x : Name} {field : Field → Value} (name : field .name = x.value) :
      IsConstant x (.node .constantRead field)

/-- The trees of variables, in one field. -/
inductive AreAtoms : List Name → Value → Prop where
  | mk {xs : List Name} {vs : List Value} (atoms : List.Forall₂ IsAtom xs vs) :
      AreAtoms xs (.seq vs)

/-- The subject of a case distinction, if there is one. -/
inductive IsSubject : Option Name → Value → Prop where
  | absent : IsSubject none .null
  | present {x : Name} {v : Value} (atom : IsAtom x v) : IsSubject (some x) v

/-- A parameter list without parameters. -/
inductive IsParameterless : Value → Prop where
  | absent : IsParameterless .null
  | empty {field : Field → Value}
      (lists : ∀ f ∈ [Field.requireds, .optionals, .posts, .keywords], field f = .empty)
      (signed : ∀ f ∈ [Field.rest, .keywordRest, .block], field f = .null) :
      IsParameterless (.node .parameters field)

/-- The node is a clause with the header, and the last argument is its body. -/
inductive Encloses : Header → Value → Value → Prop where
  | whileLoop {p : Name} {field : Field → Value} (predicate : IsAtom p (field .predicate)) :
      Encloses (.whileLoop p) (.node .whileLoop field) (field .statements)
  | untilLoop {p : Name} {field : Field → Value} (predicate : IsAtom p (field .predicate)) :
      Encloses (.untilLoop p) (.node .untilLoop field) (field .statements)
  | forLoop {i c : Name} {field : Field → Value} (index : IsAtom i (field .index))
      (collection : IsAtom c (field .collection)) :
      Encloses (.forLoop i c) (.node .forLoop field) (field .statements)
  | methodDef {x : Name} {field : Field → Value} (name : field .name = x.value)
      (receiver : field .receiver = .null) (parameters : IsParameterless (field .parameters)) :
      Encloses (.methodDef x) (.node .methodDef field) (field .body)
  | moduleDef {x : Name} {field : Field → Value} (path : IsConstant x (field .constantPath)) :
      Encloses (.moduleDef x) (.node .moduleDef field) (field .body)
  | classDef {x : Name} {field : Field → Value} (path : IsConstant x (field .constantPath))
      (superclass : field .superclass = .null) :
      Encloses (.classDef x) (.node .classDef field) (field .body)
  | call {r x : Name} {field block : Field → Value} (receiver : IsAtom r (field .receiver))
      (name : field .name = x.value) (arguments : field .arguments = .empty)
      (dot : field .safeNavigation = .scalar (.bool false))
      (attached : field .block = .node .block block)
      (parameters : IsParameterless (block .parameters)) :
      Encloses (.call r x) (.node .call field) (block .body)
  | otherwise {field : Field → Value} :
      Encloses .otherwise (.node .elseBranch field) (field .statements)
  | whenClause {x : Name} {xs : List Name} {field : Field → Value}
      (conditions : AreAtoms (x :: xs) (field .conditions)) :
      Encloses (.whenClause x xs) (.node .whenClause field) (field .statements)
  | rescue {xs : List Name} {r : Option Name} {field : Field → Value}
      (exceptions : AreAtoms xs (field .exceptions))
      (reference : field .reference = r.elim .null Name.value) :
      Encloses (.rescue xs r) (.node .rescueClause field) (field .statements)
  | ensured {field : Field → Value} :
      Encloses .ensured (.node .ensureClause field) (field .statements)

/-- The role in which a clause with the header is written. -/
def role : Header → Role
  | .otherwise => .elseBranch
  | .whenClause _ _ => .whenClause
  | .rescue _ _ => .rescueClause
  | .ensured => .ensureClause
  | _ => .expression

end Header

/-! ## Trees -/

namespace Stmt

/-- A part of a program that a field can hold. -/
inductive Part where
  /-- A statement. -/
  | statement (s : Stmt)
  /-- Statements in a sequence. -/
  | statements (ss : List Stmt)
  /-- A body. -/
  | body (ss : List Stmt)
  /-- A clause that is a node of its own. -/
  | clause (c : Clause)
  /-- Clauses of one role in a sequence. -/
  | row (role : Role) (cs : List Clause)
  /-- A clause of the role, or nothing. -/
  | option (role : Role) (cs : List Clause)
  /-- What comes after a condition otherwise. -/
  | alternate (cs : List Clause)

/-- The tree is that part of a program. -/
inductive IsTree : Part → Value → Prop where
  | atom {x : Name} {v : Value} (atom : IsAtom x v) : IsTree (.statement (.atom x)) v
  | enclosed {c : Clause} {v : Value} (opening : c.header.isOpening = true)
      (clause : IsTree (.clause c) v) : IsTree (.statement (.construct [c])) v
  | ifThen {p : Name} {ss : List Stmt} {cs : List Clause} {field : Field → Value}
      (predicate : IsAtom p (field .predicate)) (body : IsTree (.body ss) (field .statements))
      (alternate : IsTree (.alternate cs) (field .alternate)) :
      IsTree (.statement (.construct (⟨.ifThen p, ss⟩ :: cs))) (.node .ifThen field)
  | unlessThen {p : Name} {ss : List Stmt} {cs : List Clause} {field : Field → Value}
      (predicate : IsAtom p (field .predicate)) (body : IsTree (.body ss) (field .statements))
      (alternate : IsTree (.option .elseBranch cs) (field .alternate)) :
      IsTree (.statement (.construct (⟨.unlessThen p, ss⟩ :: cs))) (.node .unlessThen field)
  | caseOf {x : Option Name} {ws os : List Clause} {field : Field → Value}
      (subject : Header.IsSubject x (field .predicate))
      (branches : IsTree (.row .whenClause ws) (field .conditions))
      (otherwise : IsTree (.option .elseBranch os) (field .alternate)) :
      IsTree (.statement (.construct (⟨.caseOf x, []⟩ :: (ws ++ os)))) (.node .caseOf field)
  | beginBlock {ss : List Stmt} {rs os es : List Clause} {field : Field → Value}
      (body : IsTree (.body ss) (field .statements))
      (rescues : IsTree (.row .rescueClause rs) (field .rescueClauses))
      (otherwise : IsTree (.option .elseBranch os) (field .elseClause))
      (ensured : IsTree (.option .ensureClause es) (field .ensureClause)) :
      IsTree (.statement (.construct (⟨.beginBlock, ss⟩ :: (rs ++ (os ++ es)))))
        (.node .beginBlock field)
  | nil : IsTree (.statements []) (.seq [])
  | cons {s : Stmt} {ss : List Stmt} {v : Value} {vs : List Value}
      (head : IsTree (.statement s) v) (tail : IsTree (.statements ss) (.seq vs)) :
      IsTree (.statements (s :: ss)) (.seq (v :: vs))
  | body {ss : List Stmt} {v : Value} {vs : List Value} (shape : IsBody v vs)
      (statements : IsTree (.statements ss) (.seq vs)) : IsTree (.body ss) v
  | clause {h : Header} {ss : List Stmt} {v b : Value} (header : h.Encloses v b)
      (body : IsTree (.body ss) b) : IsTree (.clause ⟨h, ss⟩) v
  | rowNil {role : Role} : IsTree (.row role []) (.seq [])
  | rowCons {role : Role} {c : Clause} {cs : List Clause} {v : Value} {vs : List Value}
      (same : c.header.role = role) (head : IsTree (.clause c) v)
      (tail : IsTree (.row role cs) (.seq vs)) : IsTree (.row role (c :: cs)) (.seq (v :: vs))
  | absent {role : Role} : IsTree (.option role []) .null
  | present {role : Role} {c : Clause} {v : Value} (same : c.header.role = role)
      (clause : IsTree (.clause c) v) : IsTree (.option role [c]) v
  | elsif {p : Name} {ss : List Stmt} {cs : List Clause} {field : Field → Value}
      (predicate : IsAtom p (field .predicate)) (body : IsTree (.body ss) (field .statements))
      (alternate : IsTree (.alternate cs) (field .alternate)) :
      IsTree (.alternate (⟨.elsif p, ss⟩ :: cs)) (.node .ifThen field)
  | noElsif {cs : List Clause} {v : Value} (otherwise : IsTree (.option .elseBranch cs) v) :
      IsTree (.alternate cs) v

/-! ## The clauses of a tree make up rows -/

/-- The statements in the clauses are made up of rows. -/
def AreFormed (cs : List Clause) : Prop := ∀ c ∈ cs, ∀ s ∈ c.body, s.IsFormed

theorem AreFormed.append {cs ds : List Clause} (hcs : AreFormed cs) (hds : AreFormed ds) :
    AreFormed (cs ++ ds) :=
  fun c hc => (List.mem_append.mp hc).elim (hcs c) (hds c)

theorem AreFormed.cons {h : Header} {ss : List Stmt} {cs : List Clause}
    (hss : ∀ s ∈ ss, s.IsFormed) (hcs : AreFormed cs) : AreFormed (⟨h, ss⟩ :: cs) :=
  List.forall_mem_cons.mpr ⟨hss, hcs⟩

/-- What the tree of a part guarantees of its statements and of the order of its clauses. -/
def Part.IsFormed : Part → Prop
  | .statement s => s.IsFormed
  | .statements ss => ∀ s ∈ ss, s.IsFormed
  | .body ss => ∀ s ∈ ss, s.IsFormed
  | .clause c => AreFormed [c]
  | .row role cs => AreFormed cs ∧ ∀ h ∈ cs.map Clause.header, h.role = role
  | .option role cs =>
    AreFormed cs ∧ (cs = [] ∨ ∃ h, h.role = role ∧ cs.map Clause.header = [h])
  | .alternate cs =>
    AreFormed cs ∧ ∀ p, (Header.ifThen p).admits (cs.map Clause.header) = true

theorem eq_otherwise_of_role {h : Header} (hrole : h.role = .elseBranch) : h = .otherwise := by
  cases h <;> first | rfl | exact nomatch hrole

theorem eq_ensured_of_role {h : Header} (hrole : h.role = .ensureClause) : h = .ensured := by
  cases h <;> first | rfl | exact nomatch hrole

theorem Part.IsFormed.otherwise {cs : List Clause} (h : (option .elseBranch cs).IsFormed) :
    cs.map Clause.header = [] ∨ cs.map Clause.header = [.otherwise] := by
  obtain rfl | ⟨header, hrole, hcs⟩ := h.2
  · exact .inl rfl
  · exact .inr (eq_otherwise_of_role hrole ▸ hcs)

theorem Part.IsFormed.ensured {cs : List Clause} (h : (option .ensureClause cs).IsFormed) :
    cs.map Clause.header = [] ∨ cs.map Clause.header = [.ensured] := by
  obtain rfl | ⟨header, hrole, hcs⟩ := h.2
  · exact .inl rfl
  · exact .inr (eq_ensured_of_role hrole ▸ hcs)

/-- After a first header come those that may be repeated, and then one of its ends. -/
theorem admits_append {first : Header} {row tail : List Header} (hfirst : first.isOpening = true)
    (hrow : ∀ h ∈ row, first.repeats h = true)
    (htail : first.ends.contains (tail.dropWhile first.repeats) = true) :
    first.admits (row ++ tail) = true := by
  rw [Header.admits, hfirst, List.dropWhile_append_of_pos hrow, htail]
  rfl

/-- A node that is a construct with one clause. -/
theorem isRow_enclosed {h : Header} {ss : List Stmt} {v b : Value} (henc : h.Encloses v b)
    (hopening : h.isOpening = true) : Clause.isRow [⟨h, ss⟩] = true := by
  cases henc <;> first | rfl | exact nomatch hopening

/-- **The clauses in a tree may follow each other.** -/
theorem IsTree.isFormed {part : Part} {v : Value} (h : IsTree part v) : part.IsFormed := by
  induction h with
  | @atom x v atom => exact .atom x
  | @enclosed c v opening clause ih =>
    cases clause with
    | clause header body => exact .construct (isRow_enclosed header opening) ih
  | @ifThen p ss cs field predicate body alternate ihbody ihalternate =>
    exact .construct (ihalternate.2 p) (AreFormed.cons ihbody ihalternate.1)
  | @unlessThen p ss cs field predicate body alternate ihbody ihalternate =>
    refine .construct ?_ (AreFormed.cons ihbody ihalternate.1)
    change (Header.unlessThen p).admits (cs.map Clause.header) = true
    obtain htail | htail := ihalternate.otherwise <;> rw [htail] <;> rfl
  | @caseOf x ws os field subject branches otherwise ihbranches ihotherwise =>
    refine .construct ?_ (AreFormed.cons nofun (ihbranches.1.append ihotherwise.1))
    change (Header.caseOf x).admits ((ws ++ os).map Clause.header) = true
    rw [List.map_append]
    refine admits_append rfl (fun h hh => ?_) ?_
    · have hrole := ihbranches.2 h hh
      cases h <;> first | rfl | exact nomatch hrole
    · obtain htail | htail := ihotherwise.otherwise <;> rw [htail] <;> rfl
  | @beginBlock ss rs os es field body rescues otherwise ensured ihbody ihrescues ihotherwise
      ihensured =>
    have hclauses := ihrescues.1.append (ihotherwise.1.append ihensured.1)
    refine .construct ?_ (AreFormed.cons ihbody hclauses)
    change Header.beginBlock.admits ((rs ++ (os ++ es)).map Clause.header) = true
    rw [List.map_append, List.map_append]
    refine admits_append rfl (fun h hh => ?_) ?_
    · have hrole := ihrescues.2 h hh
      cases h <;> first | rfl | exact nomatch hrole
    · obtain hos | hos := ihotherwise.otherwise <;> obtain hes | hes := ihensured.ensured <;>
        rw [hos, hes] <;> rfl
  | nil => exact nofun
  | cons head tail ihhead ihtail => exact List.forall_mem_cons.mpr ⟨ihhead, ihtail⟩
  | body shape statements ih => exact ih
  | clause header body ih => exact .cons ih nofun
  | rowNil => exact ⟨nofun, nofun⟩
  | @rowCons role c cs v vs same head tail ihhead ihtail =>
    have hhead : AreFormed [c] := ihhead
    exact ⟨hhead.append ihtail.1, List.forall_mem_cons.mpr ⟨same, ihtail.2⟩⟩
  | absent => exact ⟨nofun, .inl rfl⟩
  | @present role c v same clause ih => exact ⟨ih, .inr ⟨c.header, same, rfl⟩⟩
  | @elsif p ss cs field predicate body alternate ihbody ihalternate =>
    exact ⟨.cons ihbody ihalternate.1, fun q => ihalternate.2 q⟩
  | @noElsif cs v otherwise ih =>
    refine ⟨ih.1, fun p => ?_⟩
    obtain htail | htail := ih.otherwise <;> rw [htail] <;> rfl

/-! ## What the rules ask of a tree -/

theorem isProper_enclosed {h : Header} {v b : Value} (henc : h.Encloses v b) : IsProper v := by
  cases henc <;> rfl

/-- No statement is a comment or a blank line. -/
theorem IsTree.isProper {s : Stmt} {v : Value} (h : IsTree (.statement s) v) : IsProper v := by
  cases h with
  | atom atom => cases atom; rfl
  | enclosed opening clause =>
    cases clause with
    | clause header body => exact isProper_enclosed header
  | _ => rfl

/-- The rules may look for blocks in a variable, and there are none. -/
theorem checkBlock_atom {x : Name} {v : Value} (h : IsAtom x v) :
    Rules.checkBlock v = .ok false ∧ v.assignsLocal = false := by
  cases h with
  | @var x field name =>
    have hbelow : (Value.node .localRead field).descendants = [] := by
      simp [Value.descendants, Kind.ownFields, name, Name.value, Value.isNode]
    simp [Rules.checkBlock, Value.isRecord, Value.containsBlock, Value.assignsLocal,
      Value.preorder, hbelow, Value.isBlockConstruct, Value.inGroup, Value.isKind, Value.kind?,
      Kind.closesWithEnd]

/-- Every construct contains a block: a call has one attached to it, and the others are blocks. -/
theorem IsTree.checkBlock_construct {cs : List Clause} {v : Value}
    (h : IsTree (.statement (.construct cs)) v) : Rules.checkBlock v = .ok true := by
  cases h with
  | enclosed opening clause =>
    cases clause with
    | clause header body =>
      cases header with
      | @call r x field block receiver name arguments dot attached parameters =>
        have hbelow : (.node .block block) ∈ (Value.node .call field).preorder := by
          simp [Value.preorder, Value.descendants, Kind.ownFields, attached, Value.isNode]
        have hblock : (Value.node .call field).containsBlock = true :=
          List.any_eq_true.mpr ⟨_, hbelow, rfl⟩
        rw [Rules.checkBlock, hblock]
        rfl
      | otherwise => cases opening
      | whenClause conditions => cases opening
      | rescue exceptions reference => cases opening
      | ensured => cases opening
      | _ => rfl
  | _ => rfl

end Stmt
end TerseRuby
