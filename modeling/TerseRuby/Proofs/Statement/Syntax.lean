import TerseRuby.Proofs.Reading.Lexeme

/-!
# Statements and their lines

The statements here are variables and the constructs that are closed by an `end`.  A construct is a
row of *clauses*, each of which is a header and the statements after it: a conditional, for
instance, has a clause for its first condition, one for every further condition and one for what
comes otherwise.  Which headers may follow each other is the matter of `Clause.isRow`.

A program is written line by line, and a line ends at a separator.  There are four sorts of lines:
a variable, a variable with a condition after it, a header, and the `end` of a construct
(`Line`).  `Stmt.lines` says which lines a statement is written as, and `Line.lexemes` how each of
them is written.  A conditional with nothing but a variable in it takes one line only.
-/

set_option autoImplicit false

namespace TerseRuby

/-! ## Headers -/

/-- The first line of a clause. -/
inductive Header where
  /-- A condition. -/
  | ifThen (predicate : Name)
  /-- A negated condition. -/
  | unlessThen (predicate : Name)
  /-- A loop while a condition holds. -/
  | whileLoop (predicate : Name)
  /-- A loop until a condition holds. -/
  | untilLoop (predicate : Name)
  /-- A loop over a collection. -/
  | forLoop (index collection : Name)
  /-- A case distinction, with a subject or without. -/
  | caseOf (subject : Option Name)
  /-- Statements with exception handling. -/
  | beginBlock
  /-- A method definition. -/
  | methodDef (name : Name)
  /-- A module definition. -/
  | moduleDef (path : Name)
  /-- A class definition. -/
  | classDef (path : Name)
  /-- A call of a method with a block. -/
  | call (receiver name : Name)
  /-- A further condition. -/
  | elsif (predicate : Name)
  /-- What comes otherwise. -/
  | otherwise
  /-- A branch of a case distinction, for one value or more. -/
  | whenClause (first : Name) (more : List Name)
  /-- A branch for some exceptions, or for any; the exception may be bound to a variable. -/
  | rescue (exceptions : List Name) (reference : Option Name)
  /-- What always runs at the end. -/
  | ensured
  deriving DecidableEq, Repr

namespace Header

/-- Whether a header begins a construct. -/
def isOpening : Header → Bool
  | .elsif _ => false
  | .otherwise => false
  | .whenClause _ _ => false
  | .rescue _ _ => false
  | .ensured => false
  | _ => true

/-- A condition, negated or not. -/
def conditional (negated : Bool) (predicate : Name) : Header :=
  if negated then .unlessThen predicate else .ifThen predicate

/-- Whether the second header may come any number of times after the first. -/
def repeats : Header → Header → Bool
  | .ifThen _, .elsif _ => true
  | .caseOf _, .whenClause _ _ => true
  | .beginBlock, .rescue _ _ => true
  | _, _ => false

/-- What may come at the end of a construct. -/
def ends : Header → List (List Header)
  | .ifThen _ => [[], [.otherwise]]
  | .unlessThen _ => [[], [.otherwise]]
  | .caseOf _ => [[], [.otherwise]]
  | .beginBlock => [[], [.otherwise], [.ensured], [.otherwise, .ensured]]
  | _ => [[]]

/-- Whether headers may follow a first one. -/
def admits (first : Header) (rest : List Header) : Bool :=
  first.isOpening && first.ends.contains (rest.dropWhile first.repeats)

end Header

/-! ## Statements -/

mutual

/-- A statement. -/
inductive Stmt where
  /-- A variable. -/
  | atom (x : Name)
  /-- A construct that is closed by an `end`. -/
  | construct (clauses : List Clause)

/-- A header and the statements after it. -/
inductive Clause where
  /-- A clause from its parts. -/
  | mk (header : Header) (body : List Stmt)

end

/-- The header of a clause. -/
def Clause.header : Clause → Header
  | ⟨header, _⟩ => header

/-- The statements of a clause. -/
def Clause.body : Clause → List Stmt
  | ⟨_, body⟩ => body

/-- Whether clauses make up a construct: their headers may follow each other, and in a case
distinction nothing comes before the first branch. -/
def Clause.isRow : List Clause → Bool
  | [] => false
  | ⟨.caseOf subject, body⟩ :: rest =>
    body.isEmpty && (Header.caseOf subject).admits (rest.map header)
  | ⟨first, _⟩ :: rest => first.admits (rest.map header)

/-- A statement whose constructs are rows of clauses, at every depth. -/
inductive Stmt.IsFormed : Stmt → Prop where
  | atom (x : Name) : IsFormed (.atom x)
  | construct {clauses : List Clause} (row : Clause.isRow clauses = true)
      (bodies : ∀ c ∈ clauses, ∀ s ∈ c.body, IsFormed s) : IsFormed (.construct clauses)

namespace Header

theorem isOpening_of_repeats {first next : Header} (h : first.repeats next = true) :
    next.isOpening = false := by
  cases next <;> first | rfl | (cases first <;> exact nomatch h)

theorem isOpening_of_mem_ends {first : Header} {tail : List Header} (h : tail ∈ first.ends) :
    ∀ next ∈ tail, next.isOpening = false := by
  have check : ∀ tail ∈ beginBlock.ends, ∀ next ∈ tail, next.isOpening = false := by decide
  have hmem : tail ∈ beginBlock.ends := by
    revert h
    cases first <;> simp +contextual [ends, or_imp]
  exact check tail hmem

/-- Only the headers that begin no construct may follow another one. -/
theorem isOpening_of_admits {first : Header} {rest : List Header} (h : first.admits rest = true) :
    first.isOpening = true ∧ ∀ next ∈ rest, next.isOpening = false := by
  rw [admits, Bool.and_eq_true, List.contains_iff_mem] at h
  refine ⟨h.1, fun next hnext => ?_⟩
  rw [← List.takeWhile_append_dropWhile (p := first.repeats) (l := rest)] at hnext
  obtain hnext | hnext := List.mem_append.mp hnext
  · exact isOpening_of_repeats (List.all_eq_true.mp List.all_takeWhile next hnext)
  · exact isOpening_of_mem_ends h.2 next hnext

end Header

/-- The first clause of a row begins a construct, and no other one does. -/
theorem Clause.isOpening_of_isRow {c : Clause} {cs : List Clause} (h : isRow (c :: cs) = true) :
    c.header.isOpening = true ∧ ∀ d ∈ cs, d.header.isOpening = false := by
  obtain ⟨first, body⟩ := c
  have hadmits : first.admits (cs.map header) = true := by
    cases first with
    | caseOf subject => exact (Bool.and_eq_true _ _ ▸ h).2
    | _ => exact h
  obtain ⟨hfirst, hrest⟩ := Header.isOpening_of_admits hadmits
  exact ⟨hfirst, fun d hd => hrest d.header (List.mem_map_of_mem hd)⟩

/-! ## Lines -/

/-- A line of a program. -/
inductive Line where
  /-- A variable. -/
  | atom (x : Name)
  /-- A variable with a condition, negated or not, after it. -/
  | trailing (x : Name) (negated : Bool) (predicate : Name)
  /-- The header of a clause. -/
  | header (header : Header)
  /-- The end of a construct. -/
  | close
  deriving DecidableEq, Repr

/-- The line that a construct is written as if its condition comes last. -/
def Clause.trailing? : List Clause → Option Line
  | [⟨.ifThen p, [.atom x]⟩] => some (.trailing x false p)
  | [⟨.unlessThen p, [.atom x]⟩] => some (.trailing x true p)
  | _ => none

/-- Only a condition with a single variable after it is written on one line. -/
theorem Clause.eq_of_trailing? {cs : List Clause} {line : Line} (h : trailing? cs = some line) :
    ∃ x negated p, cs = [⟨.conditional negated p, [.atom x]⟩] ∧ line = .trailing x negated p := by
  revert h
  fun_cases trailing? cs with
  | case1 p x =>
    rintro ⟨⟩
    exact ⟨x, false, p, rfl, rfl⟩
  | case2 p x =>
    rintro ⟨⟩
    exact ⟨x, true, p, rfl, rfl⟩
  | case3 => exact nofun

mutual

/-- The lines of a statement. -/
def Stmt.lines : Stmt → List Line
  | .atom x => [.atom x]
  | .construct clauses =>
    match Clause.trailing? clauses with
    | some line => [line]
    | none => clauseLines clauses ++ [.close]

/-- The lines of a clause. -/
def Clause.lines : Clause → List Line
  | ⟨header, body⟩ => .header header :: bodyLines body

/-- The lines of clauses. -/
def clauseLines : List Clause → List Line
  | [] => []
  | clause :: rest => clause.lines ++ clauseLines rest

/-- The lines of statements. -/
def bodyLines : List Stmt → List Line
  | [] => []
  | statement :: rest => statement.lines ++ bodyLines rest

end

/-! ## Lexemes -/

namespace Lexeme

/-- Names with commas between them. -/
def names : List Name → List Lexeme
  | [] => []
  | [x] => [.word x.text]
  | x :: xs => .word x.text :: .mark .comma :: names xs

/-- The variable that an exception is bound to, with the arrow before it. -/
def bound : Option Name → List Lexeme
  | none => []
  | some x => [.mark .arrow, .word x.text]

/-- A keyword and a name. -/
def keyword (text : String) (x : Name) : List Lexeme := [.word text, .blank, .word x.text]

end Lexeme

open Lexeme (names bound keyword)

/-- The lexemes of a header. -/
def Header.lexemes : Header → List Lexeme
  | .ifThen p => keyword "if" p
  | .unlessThen p => keyword "unless" p
  | .whileLoop p => keyword "while" p
  | .untilLoop p => keyword "until" p
  | .forLoop i c => keyword "for" i ++ .blank :: keyword "in" c
  | .caseOf none => [.word "case"]
  | .caseOf (some x) => keyword "case" x
  | .beginBlock => [.word "begin"]
  | .methodDef x => keyword "def" x
  | .moduleDef x => keyword "module" x
  | .classDef x => keyword "class" x
  | .call r x => [.word r.text, .mark .dot, .word x.text, .blank, .word "do"]
  | .elsif p => keyword "elsif" p
  | .otherwise => [.word "else"]
  | .whenClause x xs => .word "when" :: .blank :: names (x :: xs)
  | .rescue xs r =>
    .word "rescue" :: (if xs.isEmpty then [] else .blank :: names xs) ++ bound r
  | .ensured => [.word "ensure"]

/-- The lexemes of a line. -/
def Line.lexemes : Line → List Lexeme
  | .atom x => [.word x.text]
  | .trailing x negated p => .word x.text :: .blank :: (Header.conditional negated p).lexemes
  | .header h => h.lexemes
  | .close => [.word "end"]

/-- The lexemes of lines, with separators between them. -/
def Line.joined (lines : List Line) : List Lexeme :=
  List.intercalate [.separator] (lines.map lexemes)

/-- The lexemes of lines, with a separator after each of them. -/
def Line.terminated (lines : List Line) : List Lexeme :=
  lines.flatMap fun line => line.lexemes ++ [.separator]

namespace Lexeme

/-- A row of lexemes that the lexer gives back. -/
structure IsRow (ls : List Lexeme) : Prop where
  /-- The lexemes are those of the lexer. -/
  proper : ∀ l ∈ ls, l.IsProper
  /-- Neighbours stay apart. -/
  apart : ls.IsChain Apart

theorem isRow_nil : IsRow [] := ⟨nofun, List.isChain_nil⟩

theorem IsRow.cons {l : Lexeme} {ls : List Lexeme} (h : IsRow ls) (hl : l.IsProper)
    (hapart : ∀ m ∈ ls.head?, Apart l m) : IsRow (l :: ls) :=
  ⟨List.forall_mem_cons.mpr ⟨hl, h.proper⟩, List.isChain_cons.mpr ⟨hapart, h.apart⟩⟩

theorem isRow_word {text : String} (h : Literal.isIdentifier text.toList = true) :
    IsRow [.word text] :=
  isRow_nil.cons h nofun

/-- A word, and something after a blank. -/
theorem IsRow.word_blank {text : String} {ls : List Lexeme} (h : IsRow ls)
    (htext : Literal.isIdentifier text.toList = true) : IsRow (.word text :: .blank :: ls) := by
  refine (h.cons (l := .blank) trivial fun m _ => ?_).cons htext fun m hm => ?_
  · exact fun _ _ _ => trivial
  · obtain rfl := Option.some_inj.mp hm
    exact apart_blank _

/-- A word, a mark, and another word. -/
theorem IsRow.word_mark {x y : String} {m : Mark} {ls : List Lexeme} (h : IsRow (.word y :: ls))
    (hm : m ∈ Mark.all) (hx : Literal.isIdentifier x.toList = true) :
    IsRow (.word x :: .mark m :: .word y :: ls) := by
  have hy : Literal.isIdentifier y.toList = true := h.proper (.word y) (by simp)
  refine (h.cons (l := .mark m) hm fun l hl => ?_).cons hx fun l hl => ?_
  · obtain rfl := Option.some_inj.mp hl
    exact apart_mark_word m hy
  · obtain rfl := Option.some_inj.mp hl
    exact apart_word_mark x hm

/-- Two rows with a separator between them. -/
theorem IsRow.append_separator {ls ms : List Lexeme} (hls : IsRow ls) (hms : IsRow ms) :
    IsRow (ls ++ [.separator] ++ ms) := by
  have hafter : IsRow (.separator :: ms) := hms.cons trivial fun _ _ _ _ _ => trivial
  rw [List.append_assoc, List.singleton_append]
  refine ⟨fun l hl => (List.mem_append.mp hl).elim (hls.proper l) (hafter.proper l),
    hls.apart.append hafter.apart fun l _ m hm => ?_⟩
  obtain rfl := Option.some_inj.mp hm
  exact apart_separator l

/-- Names, and what may come after any name. -/
theorem isRow_names_append {ms : List Lexeme} (h : ∀ x : Name, IsRow (.word x.text :: ms))
    (x : Name) (xs : List Name) : IsRow (names (x :: xs) ++ ms) := by
  induction xs generalizing x with
  | nil => exact h x
  | cons y ys ih =>
    cases ys with
    | nil => exact (ih y).word_mark (by decide) x.isIdentifier
    | cons z zs => exact (ih y).word_mark (by decide) x.isIdentifier

theorem isRow_names (x : Name) (xs : List Name) : IsRow (names (x :: xs)) := by
  have hrow := isRow_names_append (fun y => isRow_word y.isIdentifier) x xs
  rwa [List.append_nil] at hrow

theorem isRow_keyword {text : String} (h : Literal.isIdentifier text.toList = true) (x : Name) :
    IsRow (keyword text x) :=
  (isRow_word x.isIdentifier).word_blank h

end Lexeme

open Lexeme

theorem Header.isRow_lexemes (h : Header) : IsRow h.lexemes := by
  cases h with
  | forLoop i c =>
    exact ((isRow_keyword (by decide) c).word_blank i.isIdentifier).word_blank
      (by decide)
  | caseOf subject =>
    cases subject with
    | none => exact isRow_word (by decide)
    | some x => exact isRow_keyword (by decide) x
  | call r x =>
    have hdo : IsRow [.word "do"] := isRow_word (by decide)
    exact (hdo.word_blank x.isIdentifier).word_mark (by decide) r.isIdentifier
  | whenClause x xs => exact (isRow_names x xs).word_blank (by decide)
  | rescue xs r =>
    have harrow (text : String) (h : Literal.isIdentifier text.toList = true) (x : Name) :
        IsRow [.word text, .mark .arrow, .word x.text] :=
      (isRow_word x.isIdentifier).word_mark (by decide) h
    match xs, r with
    | [], none => exact isRow_word (by decide)
    | [], some x => exact harrow "rescue" (by decide) x
    | x :: xs, none =>
      rw [lexemes, bound, List.append_nil]
      exact (isRow_names x xs).word_blank (by decide)
    | x :: xs, some y =>
      have hnames := isRow_names_append (fun z => harrow z.text z.isIdentifier y) x xs
      exact hnames.word_blank (by decide)
  | beginBlock => exact isRow_word (by decide)
  | otherwise => exact isRow_word (by decide)
  | ensured => exact isRow_word (by decide)
  | _ => exact isRow_keyword (by decide) _

theorem Line.isRow_lexemes (line : Line) : IsRow line.lexemes := by
  cases line with
  | atom x => exact isRow_word x.isIdentifier
  | trailing x negated p => exact (Header.isRow_lexemes _).word_blank x.isIdentifier
  | header h => exact h.isRow_lexemes
  | close => exact isRow_word (by decide)

/-! ## Lines put together -/

namespace Line

@[simp] theorem terminated_nil : terminated [] = [] := rfl

@[simp] theorem terminated_cons (line : Line) (lines : List Line) :
    terminated (line :: lines) = line.lexemes ++ [.separator] ++ terminated lines :=
  List.flatMap_cons

@[simp] theorem terminated_append (lines more : List Line) :
    terminated (lines ++ more) = terminated lines ++ terminated more :=
  List.flatMap_append

theorem joined_cons_cons (line next : Line) (lines : List Line) :
    joined (line :: next :: lines) = line.lexemes ++ [.separator] ++ joined (next :: lines) := by
  rw [joined, List.map_cons, List.map_cons, List.intercalate_cons_cons]
  rfl

@[simp] theorem joined_singleton (line : Line) : joined [line] = line.lexemes := by
  rw [joined, List.map_singleton, List.intercalate_singleton]

/-- The last of some lines has no separator after it. -/
theorem joined_append {more : List Line} (h : more ≠ []) (lines : List Line) :
    joined (lines ++ more) = terminated lines ++ joined more := by
  induction lines with
  | nil => rfl
  | cons line lines ih =>
    obtain ⟨next, rest, hnext⟩ := List.exists_cons_of_ne_nil
      (List.append_ne_nil_of_right_ne_nil lines h)
    rw [List.cons_append, hnext, joined_cons_cons, ← hnext, ih, terminated_cons, List.append_assoc,
      List.append_assoc, List.append_assoc]

/-- With a separator after the last of some lines, each of them has one. -/
theorem joined_concat_separator {lines : List Line} (h : lines ≠ []) :
    joined lines ++ [.separator] = terminated lines := by
  obtain ⟨front, last, rfl⟩ := List.eq_nil_or_concat lines |>.resolve_left h
  rw [List.concat_eq_append, joined_append (by simp), joined_singleton, terminated_append,
    terminated_cons, terminated_nil]
  simp

/-- The lexer gives back the lexemes of lines. -/
theorem isRow_joined (lines : List Line) : IsRow (joined lines) := by
  induction lines with
  | nil => exact isRow_nil
  | cons line lines ih =>
    cases lines with
    | nil =>
      rw [joined_singleton]
      exact line.isRow_lexemes
    | cons next lines =>
      rw [joined_cons_cons]
      exact line.isRow_lexemes.append_separator ih

theorem scan_joined (o : Options) (lines : List Line) :
    scan ((text (joined lines)).spell o) = joined lines :=
  scan_text o (isRow_joined lines).proper (isRow_joined lines).apart

end Line

theorem bodyLines_cons (s : Stmt) (ss : List Stmt) :
    bodyLines (s :: ss) = s.lines ++ bodyLines ss := by
  rw [bodyLines]

theorem clauseLines_append (cs ds : List Clause) :
    clauseLines (cs ++ ds) = clauseLines cs ++ clauseLines ds := by
  induction cs with
  | nil => rw [clauseLines]; rfl
  | cons c cs ih => rw [List.cons_append, clauseLines, clauseLines, ih, List.append_assoc]

theorem Stmt.lines_ne_nil (s : Stmt) : s.lines ≠ [] := by
  cases s with
  | atom x => rw [Stmt.lines]; exact nofun
  | construct clauses =>
    rw [Stmt.lines]
    split
    · exact nofun
    · exact List.append_ne_nil_of_right_ne_nil _ nofun

end TerseRuby
