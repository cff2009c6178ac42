import TerseRuby.Proofs.Statement.Syntax

/-!
# Reading statements

The reader of statements takes a text apart into lexemes, and these at the separators into lines;
blanks and empty lines mean nothing to it.  A line is read by its first word (`Line.parse`).  Then
the lines are put together, with a stack of the constructs that are still open
(`Outline.assemble`): a header that begins a construct opens one, any other header begins the next
clause of the construct opened last, and an `end` closes it.  A construct is accepted only if its
clauses make up a row, and every construct has to be closed.
-/

set_option autoImplicit false

namespace TerseRuby

/-! ## Lines -/

namespace Lexeme

/-- Names with commas between them, as many as there are, and what comes after them. -/
def names? : List Lexeme → Option (List Name × List Lexeme)
  | .word text :: .mark .comma :: ls => do
    let x ← Name.ofText? text
    let (xs, rest) ← names? ls
    return (x :: xs, rest)
  | .word text :: ls => do
    let x ← Name.ofText? text
    return ([x], ls)
  | ls => some ([], ls)

/-- The variable that an exception is bound to, if there is one. -/
def reference? : List Lexeme → Option (Option Name)
  | [] => some none
  | [.mark .arrow, .word text] => some <$> Name.ofText? text
  | _ => none

end Lexeme

/-- A header that begins with a keyword. -/
def Header.parse : String → List Lexeme → Option Header
  | "if", [.word p] => ifThen <$> Name.ofText? p
  | "unless", [.word p] => unlessThen <$> Name.ofText? p
  | "while", [.word p] => whileLoop <$> Name.ofText? p
  | "until", [.word p] => untilLoop <$> Name.ofText? p
  | "for", [.word i, .word "in", .word c] => forLoop <$> Name.ofText? i <*> Name.ofText? c
  | "case", [] => some (caseOf none)
  | "case", [.word x] => (caseOf ∘ some) <$> Name.ofText? x
  | "begin", [] => some beginBlock
  | "def", [.word x] => methodDef <$> Name.ofText? x
  | "module", [.word x] => moduleDef <$> Name.ofText? x
  | "class", [.word x] => classDef <$> Name.ofText? x
  | "elsif", [.word p] => elsif <$> Name.ofText? p
  | "else", [] => some otherwise
  | "when", ls => do
    let (x :: xs, []) ← Lexeme.names? ls | none
    return whenClause x xs
  | "rescue", ls => do
    let (xs, ls) ← Lexeme.names? ls
    return rescue xs (← Lexeme.reference? ls)
  | "ensure", [] => some ensured
  | _, _ => none

namespace Line

/-- A line that begins with a name. -/
def ofName (x : Name) : List Lexeme → Option Line
  | [] => some (.atom x)
  | [.mark .dot, .word text, .word "do"] => (fun y => .header (.call x y)) <$> Name.ofText? text
  | [.word "if", .word p] => .trailing x false <$> Name.ofText? p
  | [.word "unless", .word p] => .trailing x true <$> Name.ofText? p
  | _ => none

/-- The line that some lexemes are. -/
def parse : List Lexeme → Option Line
  | .word text :: ls =>
    match Name.ofText? text with
    | some x => ofName x ls
    | none => if text = "end" then (if ls = [] then some .close else none)
      else .header <$> Header.parse text ls
  | _ => none

end Line

/-! ## Constructs -/

namespace Outline

/-- A construct that is still open: the statements before it, its complete clauses, and the header
of the clause that is being read. -/
structure Frame where
  /-- The statements before the construct. -/
  before : List Stmt
  /-- The clauses that are complete. -/
  done : List Clause
  /-- The header of the current clause. -/
  header : Header

/-- Put lines together, given the constructs that are open and the statements read so far. -/
def assemble : List Frame → List Stmt → List Line → Option (List Stmt)
  | k, ss, [] => if k.isEmpty then some ss else none
  | k, ss, .atom x :: lines => assemble k (ss ++ [.atom x]) lines
  | k, ss, .trailing x negated p :: lines =>
    assemble k (ss ++ [.construct [⟨.conditional negated p, [.atom x]⟩]]) lines
  | k, ss, .header h :: lines =>
    if h.isOpening then assemble (⟨ss, [], h⟩ :: k) [] lines
    else
      match k with
      | [] => none
      | f :: k => assemble (⟨f.before, f.done ++ [⟨f.header, ss⟩], h⟩ :: k) [] lines
  | k, ss, .close :: lines =>
    match k with
    | [] => none
    | f :: k =>
      let clauses := f.done ++ [⟨f.header, ss⟩]
      if Clause.isRow clauses then assemble k (f.before ++ [.construct clauses]) lines else none

end Outline

/-- The statements that a text is. -/
def Stmt.read (text : String) : Option (List Stmt) := do
  let lexemes := (Lexeme.scan text.toList).filter (· ≠ .blank)
  let lines ← ((lexemes.splitOn .separator).filter (· ≠ [])).mapM Line.parse
  Outline.assemble [] [] lines

/-! ## Lines are read back -/

namespace Lexeme

/-- Names are read back, up to where something else than a comma comes. -/
theorem names?_names (x : Name) (xs : List Name) {rest : List Lexeme}
    (hrest : ∀ ls, rest ≠ .mark .comma :: ls) :
    names? (names (x :: xs) ++ rest) = some (x :: xs, rest) := by
  induction xs generalizing x with
  | nil =>
    rw [names, List.singleton_append, names?.eq_2 _ _ hrest, Name.ofText?_text]
    rfl
  | cons y ys ih =>
    rw [names, List.cons_append, List.cons_append, names?, Name.ofText?_text, ih]
    · rfl
    · exact nofun

/-- Names before the variable that an exception is bound to. -/
theorem names?_bound (xs : List Name) (r : Option Name) :
    names? (names xs ++ bound r) = some (xs, bound r) := by
  cases xs with
  | nil => cases r <;> rfl
  | cons x xs =>
    refine names?_names x xs fun ls => ?_
    cases r <;> exact nofun

theorem reference?_bound (r : Option Name) : reference? (bound r) = some r := by
  cases r with
  | none => rfl
  | some x =>
    change some <$> Name.ofText? x.text = _
    rw [Name.ofText?_text]
    rfl

theorem filter_names (xs : List Name) : (names xs).filter (· ≠ .blank) = names xs := by
  fun_induction names xs with
  | case1 => rfl
  | case2 x => rfl
  | case3 x xs hxs ih => simpa using ih

end Lexeme

namespace Line

/-- The lexemes of a line without the blanks. -/
def tokens (line : Line) : List Lexeme := line.lexemes.filter (· ≠ .blank)

theorem parse_keyword {text : String} (h : text ∈ keywords) (hend : text ≠ "end")
    (ls : List Lexeme) : parse (.word text :: ls) = header <$> Header.parse text ls := by
  rw [parse, Name.ofText?_of_mem h]
  exact if_neg hend

theorem parse_keyword_name {text : String} (h : text ∈ keywords) (hend : text ≠ "end")
    {make : Name → Header}
    (hparse : ∀ p, Header.parse text [.word p] = make <$> Name.ofText? p) (x : Name) :
    parse ((Lexeme.keyword text x).filter (· ≠ .blank)) = some (header (make x)) := by
  change parse [.word text, .word x.text] = _
  rw [parse_keyword h hend, hparse, Name.ofText?_text]
  rfl

end Line

namespace Header

theorem parse_when (ls : List Lexeme) :
    parse "when" ls = (Lexeme.names? ls).bind fun
      | (x :: xs, []) => some (whenClause x xs)
      | _ => none := by
  rfl

theorem parse_rescue (ls : List Lexeme) :
    parse "rescue" ls = (Lexeme.names? ls).bind fun found =>
      (Lexeme.reference? found.2).bind fun r => some (rescue found.1 r) := by
  rfl

end Header

namespace Line

theorem parse_header (h : Header) : parse (h.lexemes.filter (· ≠ .blank)) = some (.header h) := by
  cases h with
  | ifThen p => exact parse_keyword_name (by decide) (by decide) (fun _ => rfl) p
  | unlessThen p => exact parse_keyword_name (by decide) (by decide) (fun _ => rfl) p
  | whileLoop p => exact parse_keyword_name (by decide) (by decide) (fun _ => rfl) p
  | untilLoop p => exact parse_keyword_name (by decide) (by decide) (fun _ => rfl) p
  | methodDef x => exact parse_keyword_name (by decide) (by decide) (fun _ => rfl) x
  | moduleDef x => exact parse_keyword_name (by decide) (by decide) (fun _ => rfl) x
  | classDef x => exact parse_keyword_name (by decide) (by decide) (fun _ => rfl) x
  | elsif p => exact parse_keyword_name (by decide) (by decide) (fun _ => rfl) p
  | forLoop i c =>
    have hparse : Header.parse "for" [.word i.text, .word "in", .word c.text] =
        Header.forLoop <$> Name.ofText? i.text <*> Name.ofText? c.text := rfl
    change parse [.word "for", .word i.text, .word "in", .word c.text] = _
    rw [parse_keyword (by decide) (by decide), hparse, Name.ofText?_text, Name.ofText?_text]
    rfl
  | caseOf subject =>
    cases subject with
    | none => exact parse_keyword (by decide) (by decide) []
    | some x =>
      exact @parse_keyword_name "case" (by decide) (by decide) (Header.caseOf ∘ some)
        (fun _ => rfl) x
  | call r x =>
    change parse [.word r.text, .mark .dot, .word x.text, .word "do"] = _
    rw [parse, Name.ofText?_text]
    dsimp only
    rw [ofName, Name.ofText?_text]
    rfl
  | beginBlock => exact parse_keyword (by decide) (by decide) []
  | otherwise => exact parse_keyword (by decide) (by decide) []
  | ensured => exact parse_keyword (by decide) (by decide) []
  | whenClause x xs =>
    have hnames : Lexeme.names? (Lexeme.names (x :: xs) ++ []) = _ :=
      Lexeme.names?_names x xs nofun
    rw [List.append_nil] at hnames
    have htokens : (Header.whenClause x xs).lexemes.filter (· ≠ .blank) =
        .word "when" :: Lexeme.names (x :: xs) := by
      rw [Header.lexemes, ← Lexeme.filter_names (x :: xs)]
      simp
    rw [htokens, parse_keyword (by decide) (by decide), Header.parse_when, hnames]
    rfl
  | rescue xs r =>
    have htokens : (Header.rescue xs r).lexemes.filter (· ≠ .blank) =
        .word "rescue" :: (Lexeme.names xs ++ Lexeme.bound r) := by
      have hnames := Lexeme.filter_names xs
      cases xs <;> cases r <;> simp_all [Header.lexemes, Lexeme.bound, Lexeme.names]
    rw [htokens, parse_keyword (by decide) (by decide), Header.parse_rescue, Lexeme.names?_bound,
      Option.bind_some, Lexeme.reference?_bound]
    rfl

theorem parse_tokens (line : Line) : parse line.tokens = some line := by
  cases line with
  | atom x => simp [tokens, lexemes, parse, ofName]
  | trailing x negated p =>
    cases negated <;>
      simp [tokens, lexemes, Header.conditional, Header.lexemes, parse, ofName, Lexeme.keyword]
  | header h => exact parse_header h
  | close =>
    change parse [.word "end"] = _
    rw [parse, Name.ofText?_of_mem (by decide)]
    rfl

theorem tokens_ne_nil (line : Line) : line.tokens ≠ [] := by
  intro h
  have hparse := parse_tokens line
  rw [h] at hparse
  exact nomatch hparse

/-- The separators stand between the lines only. -/
theorem separator_notMem_lexemes (line : Line) : .separator ∉ line.lexemes := by
  have hnames (xs : List Name) : .separator ∉ Lexeme.names xs := by
    fun_induction Lexeme.names xs with
    | case1 => exact nofun
    | case2 x => simp
    | case3 x xs hxs ih => simpa using ih
  have hbound (r : Option Name) : .separator ∉ Lexeme.bound r := by cases r <;> simp [Lexeme.bound]
  have hheader (h : Header) : .separator ∉ h.lexemes := by
    cases h with
    | caseOf subject => cases subject <;> simp [Header.lexemes, Lexeme.keyword]
    | whenClause x xs => simpa [Header.lexemes] using hnames (x :: xs)
    | rescue xs r => cases xs <;> simp [Header.lexemes, hnames, hbound]
    | _ => simp [Header.lexemes, Lexeme.keyword]
  cases line with
  | atom x => simp [lexemes]
  | trailing x negated p => simpa [lexemes] using hheader _
  | header h => exact hheader h
  | close => simp [lexemes]

theorem filter_joined (lines : List Line) :
    (joined lines).filter (· ≠ .blank) = List.intercalate [.separator] (lines.map tokens) := by
  induction lines with
  | nil => rfl
  | cons line lines ih =>
    cases lines with
    | nil => rw [joined_singleton, List.map_singleton, List.intercalate_singleton, tokens]
    | cons next lines =>
      rw [joined_cons_cons, List.filter_append, List.filter_append, ih, List.map_cons,
        List.map_cons, List.map_cons, List.intercalate_cons_cons]
      rfl

/-- Lines come apart at the separators. -/
theorem splitOn_filter_joined (lines : List Line) :
    (((joined lines).filter (· ≠ .blank)).splitOn .separator).filter (· ≠ []) =
      lines.map tokens := by
  have hfilter : (lines.map tokens).filter (· ≠ []) = lines.map tokens := by
    rw [List.filter_eq_self]
    intro ls hls
    obtain ⟨line, -, rfl⟩ := List.mem_map.mp hls
    simpa using line.tokens_ne_nil
  have hseparator : ∀ ls ∈ lines.map tokens, .separator ∉ ls := by
    intro ls hls hmem
    obtain ⟨line, -, rfl⟩ := List.mem_map.mp hls
    exact line.separator_notMem_lexemes (List.mem_of_mem_filter hmem)
  rw [filter_joined]
  by_cases hlines : lines = []
  · rw [hlines]
    rfl
  · rw [List.splitOn_intercalate _ hseparator (by simpa using hlines), hfilter]

theorem mapM_parse (lines : List Line) : (lines.map tokens).mapM parse = some lines := by
  induction lines with
  | nil => rfl
  | cons line lines ih =>
    rw [List.map_cons, List.mapM_cons, parse_tokens, ih]
    rfl

end Line

/-- Written lines are read as what they are put together to. -/
theorem Stmt.read_joined (o : Options) (lines : List Line) :
    read (String.ofList ((Lexeme.text (Line.joined lines)).spell o)) =
      Outline.assemble [] [] lines := by
  rw [read, String.toList_ofList, Line.scan_joined, Line.splitOn_filter_joined, Line.mapM_parse]
  rfl

/-! ## Constructs are read back -/

namespace Outline

theorem assemble_opening {h : Header} (hh : h.isOpening = true) (k : List Frame) (ss : List Stmt)
    (lines : List Line) :
    assemble k ss (.header h :: lines) = assemble (⟨ss, [], h⟩ :: k) [] lines :=
  if_pos hh

theorem assemble_branch {h : Header} (hh : h.isOpening = false) (f : Frame) (k : List Frame)
    (ss : List Stmt) (lines : List Line) :
    assemble (f :: k) ss (.header h :: lines) =
      assemble (⟨f.before, f.done ++ [⟨f.header, ss⟩], h⟩ :: k) [] lines :=
  if_neg (Bool.eq_false_iff.mp hh)

/-- Wherever the lines stand, they are read as the statements. -/
def Reads (lines : List Line) (ss : List Stmt) : Prop :=
  ∀ k before rest, assemble k before (lines ++ rest) = assemble k (before ++ ss) rest

theorem reads_bodyLines {ss : List Stmt} (h : ∀ s ∈ ss, Reads s.lines [s]) :
    Reads (bodyLines ss) ss := by
  induction ss with
  | nil =>
    intro k before rest
    rw [bodyLines, List.nil_append, List.append_nil]
  | cons s ss ih =>
    rw [List.forall_mem_cons] at h
    intro k before rest
    rw [bodyLines, List.append_assoc, h.1, ih h.2, List.append_assoc, List.singleton_append]

/-- The clauses after the first, up to the `end` of the construct: the frame on top of the stack
holds what comes before them. -/
theorem assemble_clauseLines {cs : List Clause}
    (hbodies : ∀ c ∈ cs, Reads (bodyLines c.body) c.body)
    (hheaders : ∀ c ∈ cs, c.header.isOpening = false) (before : List Stmt) (done : List Clause)
    (h : Header) (ss : List Stmt) (k : List Frame) (rest : List Line)
    (hrow : Clause.isRow (done ++ ⟨h, ss⟩ :: cs) = true) :
    assemble (⟨before, done, h⟩ :: k) ss (clauseLines cs ++ .close :: rest) =
      assemble k (before ++ [.construct (done ++ ⟨h, ss⟩ :: cs)]) rest := by
  induction cs generalizing done h ss with
  | nil =>
    rw [clauseLines, List.nil_append, assemble]
    exact if_pos hrow
  | cons c cs ih =>
    obtain ⟨next, body⟩ := c
    have hbody : Reads (bodyLines body) body := hbodies ⟨next, body⟩ List.mem_cons_self
    have hnext : next.isOpening = false := hheaders ⟨next, body⟩ List.mem_cons_self
    rw [List.append_cons] at hrow
    rw [List.append_cons done, clauseLines, Clause.lines, List.cons_append, List.cons_append,
      assemble_branch hnext, List.append_assoc, hbody, List.nil_append]
    exact ih (fun c hc => hbodies c (List.mem_cons_of_mem _ hc))
      (fun c hc => hheaders c (List.mem_cons_of_mem _ hc)) (done ++ [⟨h, ss⟩]) next body hrow

/-- A construct is read back from its lines if the statements in it are. -/
theorem reads_construct {cs : List Clause} (hrow : Clause.isRow cs = true)
    (hbodies : ∀ c ∈ cs, Reads (bodyLines c.body) c.body) :
    Reads (clauseLines cs ++ [.close]) [.construct cs] := by
  cases cs with
  | nil => exact nomatch hrow
  | cons c cs =>
    obtain ⟨first, body⟩ := c
    have hbody : Reads (bodyLines body) body := hbodies ⟨first, body⟩ List.mem_cons_self
    obtain ⟨hfirst, hheaders⟩ := Clause.isOpening_of_isRow hrow
    intro k before rest
    rw [clauseLines, Clause.lines, List.append_assoc, List.append_assoc, List.cons_append,
      @assemble_opening first hfirst, hbody]
    exact assemble_clauseLines (fun c hc => hbodies c (List.mem_cons_of_mem _ hc)) hheaders before
      [] first body k rest hrow

/-- A construct on one line is read back. -/
theorem reads_trailing {cs : List Clause} {line : Line} (h : Clause.trailing? cs = some line) :
    Reads [line] [.construct cs] := by
  obtain ⟨x, negated, p, rfl, rfl⟩ := Clause.eq_of_trailing? h
  exact fun _ _ _ => rfl

end Outline

namespace Stmt

/-- A statement is read back from its lines. -/
theorem IsFormed.reads {s : Stmt} (h : s.IsFormed) : Outline.Reads s.lines [s] := by
  induction h with
  | atom x =>
    rw [Stmt.lines]
    exact fun _ _ _ => rfl
  | @construct clauses row bodies ih =>
    rw [Stmt.lines]
    split
    · rename_i htrailing
      exact Outline.reads_trailing htrailing
    · exact Outline.reads_construct row fun c hc => Outline.reads_bodyLines (ih c hc)

/-- **Statements are read back from their lines.** -/
theorem read_lines {ss : List Stmt} (h : ∀ s ∈ ss, s.IsFormed) (o : Options) :
    read (String.ofList ((Lexeme.text (Line.joined (bodyLines ss))).spell o)) = some ss := by
  have hreads := Outline.reads_bodyLines (fun s hs => (h s hs).reads) [] [] []
  rw [List.append_nil, List.nil_append] at hreads
  rw [read_joined, hreads]
  rfl

end Stmt

end TerseRuby
