import TerseRuby.Literal.Symbol
import TerseRuby.Proofs.Literal.Scanner
import Mathlib.Data.List.Basic

/-!
# Where tokens end

A lexer goes through a text from left to right, and at each place the text before it and the next
characters decide whether a token ends there.  This file has such a lexer for the texts of programs.

* `Lexer.Mode`: the token that is in progress.  A name takes one question or exclamation mark at its
  end, unless an equals sign comes after it; an operator takes each character that makes it a longer
  one, and so does a symbol that is spelled like an operator.
* `Lexer.feed`: one character.  Brackets that are open are kept on a stack, because a brace may
  close a slot of a string, and the text goes on inside the string then.
* `Lexer.isBoundary` and `Lexer.isToken`: whether a token ends, or is read, at a place of a text.

A text may be read anywhere without disturbing what is around it if it closes the brackets, strings
and comments that it opens.  `Lexer.Closed` says so, and the lemmas on it cover names, numbers,
literals, comments and everything between brackets.
-/

set_option autoImplicit false

namespace TerseRuby
namespace Lexer

/-! ## Spellings -/

/-- The operators.  Whatever begins one of them, up to any character, is one as well. -/
def operators : List (List Char) :=
  ["+", "-", "*", "/", "%", "**", "=", "<", ">", "!", "&", "|", "^", "~", "?", ".", "==", "===",
    "=~", "=>", "<=", "<=>", "<<", ">=", ">>", "!=", "!~", "&&", "||", "..", "...", "&.", "->",
    "+=", "-=", "*=", "/=", "%=", "**=", "<<=", ">>=", "&=", "|=", "^=", "&&=", "||="].map
    String.toList

/-- What a symbol may be spelled like if it is no name. -/
def symbols : List (List Char) := Literal.operatorNames ++ [['&', '&'], ['|', '|']]

/-- Whether a spelling becomes the beginning of another one with a further character. -/
def grows (spellings : List (List Char)) (spelling : List Char) (c : Char) : Bool :=
  spellings.any fun other => (spelling ++ [c]).isPrefixOf other

/-- The characters that operators are made of. -/
def isOperatorChar (c : Char) : Bool := "+-*/%=<>!&|^~?.".toList.contains c

/-! ## Modes -/

/-- The token in progress. -/
inductive Mode where
  /-- None. -/
  | gap
  /-- A name or a keyword. -/
  | word
  /-- A name with a mark at its end. -/
  | marked (mark : Char)
  /-- A name with a colon at its end. -/
  | label
  /-- A number. -/
  | number
  /-- A number that ends in the letter of an exponent. -/
  | exponent
  /-- An instance, class or global variable. -/
  | sigil
  /-- An at sign. -/
  | atSign
  /-- A dollar sign, which takes whatever comes next. -/
  | dollar
  /-- An operator; a point or a sign may turn out to belong to a number. -/
  | operator (inNumber : Bool) (spelling : List Char)
  /-- A colon, and an operator after it. -/
  | symbol (spelling : List Char)
  /-- The inside of a double-quoted string. -/
  | quoted
  /-- The same, after a backslash. -/
  | quotedEscape
  /-- The same, after a number sign. -/
  | quotedSign
  /-- The inside of a single-quoted string. -/
  | raw
  /-- The same, after a backslash. -/
  | rawEscape
  /-- A comment. -/
  | comment
  deriving Repr

namespace Mode

/-- A word character in code. -/
def afterWord : Mode → Char → Mode
  | .word, _ | .symbol [], _ => .word
  | .sigil, _ | .atSign, _ => .sigil
  | .number, c | .exponent, c => if c == 'e' || c == 'E' then .exponent else .number
  | _, c => if c.isDigit then .number else .word

/-- A colon in code. -/
def afterColon : Mode → Mode
  | .word | .marked _ | .number | .exponent | .sigil => .label
  | .label | .symbol [] => .operator false [':', ':']
  | _ => .symbol []

/-- A character of an operator in code. -/
def afterOperator : Mode → Char → Mode
  | .word, c => if c == '?' || c == '!' then .marked c else .operator false [c]
  | .marked mark, c => .operator false (if mark == '!' && c == '=' then [mark, c] else [c])
  | .number, c => .operator (c == '.') [c]
  | .exponent, c => .operator (c == '.' || c == '+' || c == '-') [c]
  | .operator _ spelling, c =>
    .operator false (if grows operators spelling c then spelling ++ [c] else [c])
  | .symbol spelling, c =>
    if grows symbols spelling c then .symbol (spelling ++ [c]) else .operator false [c]
  | _, c => .operator false [c]

/-- A character in code that is no bracket. -/
def next (m : Mode) (c : Char) : Mode :=
  if CharClass.isWord c then m.afterWord c
  else if isOperatorChar c then m.afterOperator c
  else if c == ':' then m.afterColon
  else if c == '@' then .atSign
  else if c == '$' then .dollar
  else if c == '"' then .quoted
  else if c == '\'' then .raw
  else if c == '#' then .comment
  else .gap

/-- Whether a bracket belongs to a symbol. -/
def takesBracket : Mode → Char → Bool
  | .symbol spelling, c => (c == '[' || c == ']') && grows symbols spelling c
  | _, _ => false

/-- A bracket that belongs to a symbol. -/
def afterBracket : Mode → Char → Mode
  | .symbol spelling, c => .symbol (spelling ++ [c])
  | m, _ => m

/-- Whether the text so far is code that anything may follow: no string or comment is open, and no
token that is sure to go on. -/
def isSettled : Mode → Bool
  | .symbol spelling => spelling != [] && spelling != ['[']
  | .dollar | .quoted | .quotedEscape | .quotedSign | .raw | .rawEscape | .comment => false
  | _ => true

/-- Whether the next character belongs to the token in progress, given all that comes next. -/
def goesOn : Mode → List Char → Bool
  | _, [] => false
  | .gap, _ => false
  | .word, c :: rest =>
    CharClass.isWord c || ((c == '?' || c == '!') && rest.head? != some '=')
      || (c == ':' && rest.head? != some ':')
  | .marked mark, c :: rest => (mark == '!' && c == '=') || (c == ':' && rest.head? != some ':')
  | .label, c :: _ => c == ':'
  | .number, c :: rest => CharClass.isWord c || (c == '.' && rest.head?.any Char.isDigit)
  | .exponent, c :: rest =>
    CharClass.isWord c || ((c == '.' || c == '+' || c == '-') && rest.head?.any Char.isDigit)
  | .sigil, c :: _ => CharClass.isWord c
  | .atSign, c :: _ => CharClass.isWord c || c == '@'
  | .operator inNumber spelling, c :: _ => grows operators spelling c || (inNumber && c.isDigit)
  | .symbol spelling, c :: _ =>
    grows symbols spelling c
      || (spelling.isEmpty && (CharClass.isWord c || "@$\":".toList.contains c))
  | _, _ => true

end Mode

/-! ## States -/

/-- What an open bracket is closed by. -/
inductive Frame where
  /-- A bracket of any sort. -/
  | bracket
  /-- The brace that ends a slot of a string. -/
  | slot
  deriving Repr

/-- The token in progress and the brackets that are open, the innermost first. -/
structure State where
  /-- The token in progress. -/
  mode : Mode
  /-- The brackets that are open. -/
  frames : List Frame
  deriving Repr

/-- Whether a character is an opening bracket. -/
def isOpening (c : Char) : Bool := c == '(' || c == '[' || c == '\x7b'

/-- Whether a character is a closing bracket. -/
def isClosing (c : Char) : Bool := c == ')' || c == ']' || c == '\x7d'

/-- The state after a closing bracket. -/
def close (frames : List Frame) (c : Char) : State :=
  match frames with
  | [] => ⟨.gap, []⟩
  | .bracket :: outer => ⟨.gap, outer⟩
  | .slot :: outer => if c == '\x7d' then ⟨.quoted, outer⟩ else ⟨.gap, .slot :: outer⟩

/-- A character in code. -/
def feedCode (m : Mode) (frames : List Frame) (c : Char) : State :=
  if m.takesBracket c then ⟨m.afterBracket c, frames⟩
  else if isOpening c then ⟨.gap, .bracket :: frames⟩
  else if isClosing c then close frames c
  else ⟨m.next c, frames⟩

/-- A character inside a double-quoted string. -/
def feedQuoted (frames : List Frame) (c : Char) : State :=
  if c == '"' then ⟨.gap, frames⟩
  else if c == '\\' then ⟨.quotedEscape, frames⟩
  else if c == '#' then ⟨.quotedSign, frames⟩
  else ⟨.quoted, frames⟩

/-- One character. -/
def feed (s : State) (c : Char) : State :=
  match s.mode with
  | .dollar => ⟨.sigil, s.frames⟩
  | .quoted => feedQuoted s.frames c
  | .quotedEscape => ⟨.quoted, s.frames⟩
  | .quotedSign => if c == '\x7b' then ⟨.gap, .slot :: s.frames⟩ else feedQuoted s.frames c
  | .raw =>
    if c == '\'' then ⟨.gap, s.frames⟩ else ⟨if c == '\\' then .rawEscape else .raw, s.frames⟩
  | .rawEscape => ⟨.raw, s.frames⟩
  | .comment => ⟨if c == '\n' then .gap else .comment, s.frames⟩
  | m => feedCode m s.frames c

/-- A text. -/
def feedAll (s : State) (text : List Char) : State := text.foldl feed s

/-- The state after a text. -/
def after (text : List Char) : State := feedAll ⟨.gap, []⟩ text

/-- Whether a token ends, or none is in progress, where one text ends and the other begins. -/
def isBoundary (before next : List Char) : Bool := !(after before).mode.goesOn next

/-- Whether a token is read between two texts: one begins there, it goes on over each of its
characters, and it ends there. -/
def isToken (before token next : List Char) : Bool :=
  isBoundary before (token ++ next) && isBoundary (before ++ token) next
    && (List.range (token.length - 1)).all fun i =>
      !isBoundary (before ++ token.take (i + 1)) (token.drop (i + 1) ++ next)

/-! ## Texts that close what they open -/

/-- Whatever is read before it, the text leaves the same brackets open, and no string or comment. -/
def Closed (text : List Char) : Prop :=
  ∀ m frames, m.isSettled = true →
    ∃ m', m'.isSettled = true ∧ feedAll ⟨m, frames⟩ text = ⟨m', frames⟩

theorem feedAll_append (s : State) (front back : List Char) :
    feedAll s (front ++ back) = feedAll (feedAll s front) back :=
  List.foldl_append

theorem feedAll_cons (s : State) (c : Char) (text : List Char) :
    feedAll s (c :: text) = feedAll (feed s c) text :=
  rfl

theorem closed_nil : Closed [] := fun m _ hm => ⟨m, hm, rfl⟩

theorem Closed.append {front back : List Char} (hfront : Closed front) (hback : Closed back) :
    Closed (front ++ back) := by
  intro m frames hm
  obtain ⟨m₁, hm₁, hfirst⟩ := hfront m frames hm
  obtain ⟨m₂, hm₂, hsecond⟩ := hback m₁ frames hm₁
  exact ⟨m₂, hm₂, by rw [feedAll_append, hfirst, hsecond]⟩

/-- In code a character is read as one of code. -/
theorem feed_of_isSettled {m : Mode} (hm : m.isSettled = true) (frames : List Frame) (c : Char) :
    feed ⟨m, frames⟩ c = feedCode m frames c := by
  cases m <;> first | rfl | cases hm

/-! ### Plain characters -/

/-- The characters that open or close something, or that a token has to follow. -/
def specials : List Char := "\"'#$:()[]\x7b\x7d".toList

/-- Whether a character is none of those. -/
def isPlain (c : Char) : Bool := !specials.contains c

theorem isPlain_iff {c : Char} : isPlain c = true ↔ c ∉ specials := by
  rw [isPlain, Bool.not_eq_true', List.contains_eq_mem, decide_eq_false_iff_not]

/-- A property that no special character has is one of plain characters only. -/
theorem isPlain_of {p : Char → Bool} (hp : ∀ c ∈ specials, p c = false) {c : Char}
    (h : p c = true) : isPlain c = true := by
  rw [isPlain_iff]
  intro hc
  rw [hp c hc] at h
  cases h

theorem isPlain_of_isWord {c : Char} (h : CharClass.isWord c = true) : isPlain c = true :=
  isPlain_of (by decide) h

theorem ne_of_isPlain {c d : Char} (hc : isPlain c = true) (hd : d ∈ specials) : c ≠ d := by
  rintro rfl
  exact isPlain_iff.mp hc hd

theorem grows_iff {spellings : List (List Char)} {spelling : List Char} {c : Char} :
    grows spellings spelling c = true ↔
      ∃ other ∈ spellings, other.take spelling.length = spelling ∧
        other[spelling.length]? = some c := by
  rw [grows, List.any_eq_true]
  refine exists_congr fun other => and_congr_right fun _ => ?_
  rw [List.isPrefixOf_iff_prefix]
  constructor
  · rintro ⟨rest, rfl⟩
    simp
  · rintro ⟨htake, hget⟩
    refine ⟨other.drop (spelling.length + 1), ?_⟩
    obtain ⟨hlt, hget⟩ := List.getElem?_eq_some_iff.mp hget
    rw [← htake, ← hget, List.length_take_of_le (Nat.le_of_lt hlt)]
    simp

/-- In a symbol, an opening bracket comes first and a closing one comes after it. -/
theorem bracket_symbols : ∀ other ∈ symbols, ∀ i ∈ List.range other.length,
    (other[i]? = some '[' → other.take i = []) ∧ (other[i]? = some ']' → other.take i = ['[']) := by
  decide

/-- A symbol that anything may follow takes no bracket. -/
theorem takesBracket_of_isSettled {m : Mode} (hm : m.isSettled = true) (c : Char) :
    m.takesBracket c = false := by
  cases m with
  | symbol spelling =>
    obtain ⟨hnil, hopen⟩ := Bool.and_eq_true_iff.mp hm
    rw [Bool.eq_false_iff]
    intro htakes
    obtain ⟨hc, hgrows⟩ := Bool.and_eq_true_iff.mp htakes
    obtain ⟨other, hother, htake, hget⟩ := grows_iff.mp hgrows
    have hlength := (List.getElem?_eq_some_iff.mp hget).1
    have hplace := bracket_symbols other hother _ (List.mem_range.mpr hlength)
    rw [htake] at hplace
    rcases Bool.or_eq_true_iff.mp hc with hc | hc
    · exact (bne_iff_ne.mp hnil) (hplace.1 (eq_of_beq hc ▸ hget))
    · exact (bne_iff_ne.mp hopen) (hplace.2 (eq_of_beq hc ▸ hget))
  | _ => rfl

theorem isSettled_afterOperator {m : Mode} {c : Char} (hm : m.isSettled = true) :
    (m.afterOperator c).isSettled = true := by
  cases m with
  | word =>
    rw [Mode.afterOperator]
    split <;> rfl
  | symbol spelling =>
    rw [Mode.afterOperator]
    split
    · obtain ⟨hnil, -⟩ := Bool.and_eq_true_iff.mp hm
      cases spelling with
      | nil => cases hnil
      | cons d spelling => simp [Mode.isSettled]
    · rfl
  | _ => rfl

theorem isSettled_afterWord {m : Mode} {c : Char} : (m.afterWord c).isSettled = true := by
  unfold Mode.afterWord
  split <;> first | rfl | (split <;> rfl)

/-- A plain character leaves the text settled, also after the colon of a symbol. -/
theorem isSettled_next {m : Mode} {c : Char} (hm : m.isSettled = true ∨ m = .symbol [])
    (hc : isPlain c = true) : (m.next c).isSettled = true := by
  have hne {d : Char} (hd : d ∈ specials) : ¬(c == d) = true :=
    fun heq => ne_of_isPlain hc hd (eq_of_beq heq)
  unfold Mode.next
  rw [if_neg (hne (by decide : ':' ∈ specials)), if_neg (hne (by decide : '$' ∈ specials)),
    if_neg (hne (by decide : '"' ∈ specials)), if_neg (hne (by decide : '\'' ∈ specials)),
    if_neg (hne (by decide : '#' ∈ specials))]
  split
  · exact isSettled_afterWord
  split
  · obtain hm | rfl := hm
    · exact isSettled_afterOperator hm
    · rw [Mode.afterOperator]
      split
      · simpa [Mode.isSettled] using ne_of_isPlain hc (by decide : '[' ∈ specials)
      · rfl
  split <;> rfl

theorem feedCode_of_isPlain {c : Char} (hc : isPlain c = true) (m : Mode) (frames : List Frame) :
    feedCode m frames c = ⟨m.next c, frames⟩ := by
  have hne {d : Char} (hd : d ∈ specials) : (c == d) = false :=
    beq_eq_false_iff_ne.mpr (ne_of_isPlain hc hd)
  have hopen := hne (by decide : '[' ∈ specials)
  have hclose := hne (by decide : ']' ∈ specials)
  have htakes : m.takesBracket c = false := by
    unfold Mode.takesBracket
    split
    · rw [hopen, hclose]
      rfl
    · rfl
  rw [feedCode, htakes, isOpening, isClosing, hopen, hclose, hne (by decide : '(' ∈ specials),
    hne (by decide : ')' ∈ specials), hne (by decide : '\x7b' ∈ specials),
    hne (by decide : '\x7d' ∈ specials)]
  rfl

theorem closed_of_isPlain {text : List Char} (h : ∀ c ∈ text, isPlain c = true) :
    Closed text := by
  induction text with
  | nil => exact closed_nil
  | cons c text ih =>
    rw [List.forall_mem_cons] at h
    intro m frames hm
    rw [feedAll_cons, feed_of_isSettled hm, feedCode_of_isPlain h.1]
    exact ih h.2 _ frames (isSettled_next (.inl hm) h.1)

/-! ### Brackets -/

theorem feed_opening {m : Mode} (hm : m.isSettled = true) (frames : List Frame) {c : Char}
    (hc : isOpening c = true) : feed ⟨m, frames⟩ c = ⟨.gap, .bracket :: frames⟩ := by
  rw [feed_of_isSettled hm, feedCode, takesBracket_of_isSettled hm, hc]
  rfl

theorem feed_closing {m : Mode} (hm : m.isSettled = true) (frames : List Frame) {c : Char}
    (hc : isClosing c = true) : feed ⟨m, frames⟩ c = close frames c := by
  have hopening : isOpening c = false := by
    simp only [isClosing, Bool.or_eq_true, beq_iff_eq] at hc
    obtain (rfl | rfl) | rfl := hc <;> rfl
  rw [feed_of_isSettled hm, feedCode, takesBracket_of_isSettled hm, hopening, hc]
  rfl

/-- A text between brackets. -/
theorem Closed.between {text : List Char} (h : Closed text) {opening closing : Char}
    (hopening : isOpening opening = true) (hclosing : isClosing closing = true) :
    Closed ([opening] ++ text ++ [closing]) := by
  intro m frames hm
  obtain ⟨m', hm', hinside⟩ := h .gap (.bracket :: frames) rfl
  refine ⟨.gap, rfl, ?_⟩
  rw [feedAll_append, feedAll_append]
  change feed (feedAll (feed _ opening) text) closing = _
  rw [feed_opening hm frames hopening, hinside, feed_closing hm' _ hclosing]
  rfl

/-! ### Names -/

/-- A text that can also come after the colon of a symbol. -/
structure ClosedName (text : List Char) : Prop where
  /-- It is closed. -/
  closed : Closed text
  /-- It goes on with a symbol. -/
  afterColon : ∀ frames, ∃ m, m.isSettled = true ∧ feedAll ⟨.symbol [], frames⟩ text = ⟨m, frames⟩

/-- The modes that a colon can lead to. -/
theorem afterColon_cases {m : Mode} (hm : m.isSettled = true) :
    m.afterColon.isSettled = true ∨ m.afterColon = .symbol [] := by
  cases m <;> first | exact .inl rfl | exact .inr rfl | skip
  rename_i spelling
  cases spelling <;> first | exact .inl rfl | exact .inr rfl

theorem feed_colon {m : Mode} (hm : m.isSettled = true ∨ m = .symbol []) (frames : List Frame) :
    feed ⟨m, frames⟩ ':' = ⟨m.afterColon, frames⟩ := by
  obtain hm | rfl := hm
  · rw [feed_of_isSettled hm, feedCode, takesBracket_of_isSettled hm]
    rfl
  · rfl

namespace ClosedName

variable {text : List Char}

theorem of_colon (h : ClosedName text) {m : Mode} (hm : m.isSettled = true ∨ m = .symbol [])
    (frames : List Frame) :
    ∃ m', m'.isSettled = true ∧ feedAll ⟨m, frames⟩ text = ⟨m', frames⟩ := by
  obtain hm | rfl := hm
  · exact h.closed m frames hm
  · exact h.afterColon frames

/-- A symbol. -/
theorem symbol (h : ClosedName text) : Closed (':' :: text) := by
  intro m frames hm
  rw [feedAll_cons, feed_colon (.inl hm)]
  exact h.of_colon (afterColon_cases hm) frames

/-- A name in a namespace. -/
theorem inNamespace (h : ClosedName text) : Closed (':' :: ':' :: text) := by
  intro m frames hm
  rw [feedAll_cons, feedAll_cons, feed_colon (.inl hm), feed_colon (afterColon_cases hm)]
  refine h.of_colon ?_ frames
  obtain hcolon | hcolon := afterColon_cases hm
  · exact afterColon_cases hcolon
  · rw [hcolon]
    exact .inl rfl

/-- Plain characters after a colon. -/
theorem of_isPlain (hne : text ≠ []) (h : ∀ c ∈ text, isPlain c = true) : ClosedName text := by
  refine ⟨closed_of_isPlain h, fun frames => ?_⟩
  cases text with
  | nil => exact absurd rfl hne
  | cons c text =>
    rw [List.forall_mem_cons] at h
    obtain ⟨m, hm, hrest⟩ := closed_of_isPlain h.2 _ frames (isSettled_next (.inr rfl) h.1)
    refine ⟨m, hm, ?_⟩
    rw [feedAll_cons]
    change feedAll (feedCode _ frames c) text = _
    rw [feedCode_of_isPlain h.1, hrest]

end ClosedName

/-- An instance, class or global variable.  After the dollar sign there may be one character of any
sort. -/
def isVariable : List Char → Bool
  | '@' :: '@' :: rest => Literal.isIdentifier rest
  | '@' :: rest => Literal.isIdentifier rest
  | '$' :: _ :: rest => rest.all CharClass.isWord
  | _ => false

theorem feed_dollar {m : Mode} (hm : m.isSettled = true ∨ m = .symbol []) (frames : List Frame) :
    feed ⟨m, frames⟩ '$' = ⟨.dollar, frames⟩ := by
  obtain hm | rfl := hm
  · rw [feed_of_isSettled hm, feedCode, takesBracket_of_isSettled hm]
    rfl
  · rfl

/-- A global variable. -/
theorem closedName_global (c : Char) {rest : List Char}
    (h : ∀ d ∈ rest, CharClass.isWord d = true) : ClosedName ('$' :: c :: rest) := by
  have hvariable (m : Mode) (hm : m.isSettled = true ∨ m = .symbol []) (frames : List Frame) :
      ∃ m', m'.isSettled = true ∧ feedAll ⟨m, frames⟩ ('$' :: c :: rest) = ⟨m', frames⟩ := by
    rw [feedAll_cons, feedAll_cons, feed_dollar hm]
    exact closed_of_isPlain (fun d hd => isPlain_of_isWord (h d hd)) .sigil frames rfl
  exact ⟨fun m frames hm => hvariable m (.inl hm) frames, hvariable _ (.inr rfl)⟩

theorem forall_isPlain_of_isIdentifier {text : List Char} (h : Literal.isIdentifier text = true) :
    text ≠ [] ∧ ∀ c ∈ text, isPlain c = true := by
  cases text with
  | nil => cases h
  | cons c rest =>
    obtain ⟨hc, hrest⟩ := Bool.and_eq_true_iff.mp h
    refine ⟨List.cons_ne_nil _ _, List.forall_mem_cons.mpr ⟨?_, fun d hd => ?_⟩⟩
    · exact isPlain_of_isWord (Bool.and_eq_true_iff.mp hc).1
    · exact isPlain_of_isWord (List.all_eq_true.mp hrest d hd)

theorem forall_isPlain_of_isMethodName {text : List Char} (h : Literal.isMethodName text = true) :
    text ≠ [] ∧ ∀ c ∈ text, isPlain c = true := by
  rcases Bool.or_eq_true_iff.mp h with h | h
  · exact forall_isPlain_of_isIdentifier h
  · obtain ⟨hsuffix, hfront⟩ := Bool.and_eq_true_iff.mp h
    obtain ⟨last, hlast, hsuffix⟩ := (Option.any_eq_true _ _).mp hsuffix
    obtain ⟨-, hplain⟩ := forall_isPlain_of_isIdentifier hfront
    rw [← List.dropLast_append_getLast? last hlast]
    refine ⟨List.append_ne_nil_of_right_ne_nil _ (List.cons_ne_nil _ _), ?_⟩
    rw [List.forall_mem_append, List.forall_mem_singleton]
    exact ⟨hplain, isPlain_of (by decide) hsuffix⟩

theorem isVariable_of_isVariableName {text : List Char}
    (h : Literal.isVariableName text = true) : isVariable text = true := by
  unfold Literal.isVariableName at h
  split at h
  · exact h
  · unfold isVariable
    split <;> simp_all
  · rename_i rest
    cases rest with
    | nil => cases h
    | cons c rest => exact (Bool.and_eq_true_iff.mp h).2
  · cases h

theorem closedName_of_isVariable {text : List Char} (h : isVariable text = true) :
    ClosedName text := by
  have hat (c : Char) (rest : List Char) (hc : isPlain c = true)
      (hrest : ∀ d ∈ rest, isPlain d = true) : ClosedName (c :: rest) :=
    .of_isPlain (List.cons_ne_nil _ _) (List.forall_mem_cons.mpr ⟨hc, hrest⟩)
  unfold isVariable at h
  split at h
  · have hrest := (forall_isPlain_of_isIdentifier h).2
    exact hat _ _ (by decide) (List.forall_mem_cons.mpr ⟨by decide, hrest⟩)
  · exact hat _ _ (by decide) (forall_isPlain_of_isIdentifier h).2
  · exact closedName_global _ fun d hd => List.all_eq_true.mp h d hd
  · cases h

theorem closedName_of_mem_operatorNames {text : List Char} (h : text ∈ Literal.operatorNames) :
    ClosedName text := by
  have hplain : ∀ text ∈ Literal.operatorNames, text = ['[', ']'] ∨ text = ['[', ']', '='] ∨
      (text ≠ [] ∧ ∀ c ∈ text, isPlain c = true) := by
    decide
  have hindex : Closed ['[', ']'] := closed_nil.between rfl rfl
  obtain rfl | rfl | ⟨hne, hplain⟩ := hplain text h
  · exact ⟨hindex, fun frames => ⟨.symbol ['[', ']'], rfl, rfl⟩⟩
  · exact ⟨hindex.append (closed_of_isPlain (by decide)),
      fun frames => ⟨.symbol ['[', ']', '='], rfl, rfl⟩⟩
  · exact .of_isPlain hne hplain

theorem closedName_of_isBareSymbol {text : List Char} (h : Literal.isBareSymbol text = true) :
    ClosedName text := by
  rcases Bool.or_eq_true_iff.mp h with h | h
  · rcases Bool.or_eq_true_iff.mp h with h | h
    · obtain ⟨hne, hplain⟩ := forall_isPlain_of_isMethodName h
      exact .of_isPlain hne hplain
    · exact closedName_of_isVariable (isVariable_of_isVariableName h)
  · exact closedName_of_mem_operatorNames (List.contains_iff_mem.mp h)

end Lexer
end TerseRuby
