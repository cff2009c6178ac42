import TerseRuby.Proofs.Tokens.Sealing

/-!
# The bars around the parameters of a block

The parameters of a block are written between two bars, and a default among them like an argument.
An argument needs no parentheses around a bar, but here it does: in `f do|x=a|b|;end` the first bar
after the opening one is an operator.  If no default shows a bar, the first bar outside of brackets
and strings is the closing one (`Value.block_bars_delimit`).
-/

set_option autoImplicit false

namespace TerseRuby

open Writer (EnsuresIn ensuresIn_pure ensuresIn_ite)

variable {o : Options} {s : Setting} {kind : Kind} {field : Field → Value}

/-! ## Defaults -/

namespace Value

/-- The parameters in a list of parameters, one by one. -/
def parameterList (parameters : Value) : List Value :=
  ([.requireds, .optionals, .posts, .keywords] : List Field).flatMap
      (fun f => (parameters.field f).elements) ++
    ([.rest, .keywordRest, .block] : List Field).map parameters.field

/-- The defaults in a list of parameters. -/
def defaults (parameters : Value) : List Value :=
  parameters.parameterList.map (·.field .value)

/-- Whether a value is a list of parameters, and each of them what a parameter can be. -/
def isParameterList (v : Value) : Bool :=
  v.isKind .parameters && v.isGrammatical && v.parameterList.all isGrammatical

/-- Only a node shows a bar. -/
theorem exists_of_showsBar {v : Value} (h : v.ShowsBar s) : ∃ kind field, v = .node kind field := by
  cases h with
  | own h =>
    cases v with
    | node kind field => exact ⟨kind, field, rfl⟩
    | _ => cases h
  | part => exact ⟨_, _, rfl⟩

/-- What is in parentheses shows no bar. -/
theorem not_showsBar_parentheses : ¬(Value.node .parentheses field).ShowsBar s := by
  intro hbar
  cases hbar with
  | own hbar => cases hbar
  | part hown hv hopen hbar =>
    rename_i f v
    cases f
    case body => exact hopen (.inl rfl)
    all_goals cases hown

/-- The fields of a parameter are its name and its default. -/
theorem eq_name_or_value (hkind : kind.isParameter = true) {f : Field} (hown : kind.owns f = true) :
    f = .name ∨ f = .value := by
  have hall : kind.isParameter = true →
      ∀ f ∈ kind.ownFields.map Prod.fst, f = .name ∨ f = .value := by
    cases kind <;> decide
  exact hall hkind f (Kind.mem_ownFields_of_owns hown)

/-- No sequence can be the name or the default of a parameter, and no node its name. -/
theorem not_admits_parameter (hkind : kind.isParameter = true) :
    (∀ f items, kind.owns f = true → (kind.position f).admits (.seq items) = false) ∧
      ∀ k fs, (kind.position .name).admits (.node k fs) = false := by
  constructor
  · intro f items hown
    obtain rfl | rfl := eq_name_or_value hkind hown
    all_goals
      revert hkind
      cases kind <;> first | exact fun h => absurd h (by decide) | exact fun _ => rfl
  · intro k fs
    obtain hname | hname := kind.position_name
    all_goals
      rw [hname]
      rfl

/-- A parameter with a proper name shows a bar only in its default. -/
theorem not_showsBar_parameter (hkind : kind.isParameter = true)
    (hgrammatical : (Value.node kind field).isGrammatical = true)
    (hspelled : (Value.node kind field).isSpelled = true)
    (hdefault : (field .value).isHiddenAs .argument = true ∨ ¬(field .value).ShowsBar s) :
    ¬(Value.node kind field).ShowsBar s := by
  have hplace : kind.owns .name = true ∧
      (∀ text, isProperName kind field text = Literal.isIdentifier text) ∧
      (∀ v, hides s kind field .value v = (v.isHiddenAs .argument = true)) ∧
      s.inField kind .value = s := by
    revert hkind
    cases kind <;> first
      | exact fun h => absurd h (by decide)
      | exact fun _ => ⟨rfl, fun _ => rfl, fun _ => rfl, rfl⟩
  obtain ⟨hname, hproper, hhides, hsetting⟩ := hplace
  obtain ⟨hsequence, hnamed⟩ := not_admits_parameter hkind
  intro hbar
  cases hbar with
  | own hbar =>
    rw [writesBar_of_owns_name hname, hasBar] at hbar
    obtain ⟨text, htext, hmem⟩ := (Option.any_eq_true _ _).mp hbar
    have hidentifier := (hproper _).symm.trans (isProperText_of_isSpelled hspelled hname htext)
    exact Lexer.bar_not_mem_of_isIdentifier hidentifier (by simpa using hmem)
  | @part _ _ _ f v hown hv hopen hbar =>
    have hadmits := admits_position hgrammatical f hown
    obtain ⟨k, fs, rfl⟩ := exists_of_showsBar hbar
    have heq : .node k fs = field f := by
      refine hv.resolve_right fun hmem => ?_
      obtain ⟨items, hitems, -⟩ := exists_items_of_mem_elements hmem rfl
      rw [hitems, hsequence f items hown] at hadmits
      cases hadmits
    obtain rfl | rfl := eq_name_or_value hkind hown
    · rw [← heq, hnamed] at hadmits
      cases hadmits
    · rw [hsetting, heq] at hbar
      rw [hhides, heq] at hopen
      exact hdefault.elim hopen fun hquiet => hquiet hbar

/-- The nodes in the fields of a list of parameters are parameters. -/
theorem mem_parameterList (hgrammatical : (Value.node .parameters field).isGrammatical = true)
    {f : Field} (hown : Kind.parameters.owns f = true) {fs : Field → Value}
    (hv : .node kind fs = field f ∨ .node kind fs ∈ (field f).elements) :
    .node kind fs ∈ (Value.node .parameters field).parameterList ∧ kind.isParameter = true := by
  have hadmits := admits_position hgrammatical f hown
  have hkind (kind' : Kind) (hkind' : kind'.isParameter = true)
      (h : (Value.node kind fs).isKind kind' = true) : kind.isParameter = true := by
    cases eq_of_beq h
    exact hkind'
  -- the parameters of a group are the elements of a sequence
  have heach (role : Role) (h : (Position.each role).admits (field f) = true) :
      .node kind fs ∈ (field f).elements ∧ (Value.node kind fs).canPlay role = true := by
    obtain ⟨hsequence, hall⟩ := Bool.and_eq_true_iff.mp h
    have hmem : .node kind fs ∈ (field f).elements := by
      refine hv.resolve_left fun heq => ?_
      rw [← heq] at hsequence
      cases hsequence
    exact ⟨hmem, List.all_eq_true.mp hall _ hmem⟩
  -- and any other stands for itself
  have hone (role : Role) (h : (Position.optional role).admits (field f) = true)
      (hleaf : ∀ items, (Value.seq items).canPlay role = false) :
      .node kind fs = field f ∧ (Value.node kind fs).canPlay role = true := by
    have heq : .node kind fs = field f := by
      refine hv.resolve_right fun hmem => ?_
      obtain ⟨items, hitems, -⟩ := exists_items_of_mem_elements hmem rfl
      rw [hitems, Position.admits, hleaf] at h
      cases h
    rw [← heq] at h
    exact ⟨heq, h⟩
  simp only [parameterList, List.mem_append, List.mem_flatMap, List.mem_map]
  cases f
  case requireds | posts =>
    obtain ⟨hmem, hplay⟩ := heach _ hadmits
    exact ⟨.inl ⟨_, by decide, hmem⟩, hplay⟩
  case optionals | keywords =>
    obtain ⟨hmem, hplay⟩ := heach _ hadmits
    exact ⟨.inl ⟨_, by decide, hmem⟩, hkind _ (by decide) hplay⟩
  case rest | keywordRest | block =>
    obtain ⟨heq, hplay⟩ := hone _ hadmits fun _ => rfl
    exact ⟨.inr ⟨_, by decide, heq.symm⟩, hplay⟩
  all_goals cases hown

/-- A list of parameters with proper names shows a bar only in one of the defaults. -/
theorem not_showsBar_parameters {v : Value} (h : v.isParameterList = true)
    (hspelled : v.isSpelledTree = true)
    (hdefaults : ∀ d ∈ v.defaults, d.isHiddenAs .argument = true ∨ ¬d.ShowsBar s) :
    ¬v.ShowsBar s := by
  obtain ⟨hboth, hall⟩ := Bool.and_eq_true_iff.mp h
  obtain ⟨hkind, hgrammatical⟩ := Bool.and_eq_true_iff.mp hboth
  obtain ⟨field, rfl⟩ := exists_of_kind? (eq_of_beq hkind)
  intro hbar
  cases hbar with
  | own hbar => cases hbar
  | @part _ _ _ f v hown hv hopen hbar =>
    obtain ⟨kind, fs, rfl⟩ := exists_of_showsBar hbar
    obtain ⟨hmem, hparameter⟩ := mem_parameterList hgrammatical hown hv
    have hsetting : s.inField .parameters f = s := by cases f <;> rfl
    have htree : (Value.node kind fs).isSpelledTree = true := by
      have hfield := isSpelledTree_field hspelled hown
      obtain heq | hmem := hv
      · rwa [heq]
      · obtain ⟨items, hitems, hitem⟩ := exists_items_of_mem_elements hmem rfl
        rw [hitems] at hfield
        exact all_preorder_item hfield hitem rfl
    rw [hsetting] at hbar
    exact not_showsBar_parameter hparameter (List.all_eq_true.mp hall _ hmem)
      (isSpelled_of_isSpelledTree htree)
      (hdefaults _ (List.mem_map_of_mem hmem)) hbar

end Value

/-! ## Blocks -/

theorem Writer.exists_of_run_built {w : Writer Draft} {l l' : Locals} {t : Text}
    (h : ((built w).run s).run l = .ok (t, l')) :
    ∃ d, (w.run s).run l = .ok (d, l') ∧ d.build = .ok t := by
  rw [built, ReaderT.run_bind, StateT.run_bind] at h
  obtain ⟨⟨d, m⟩, hdraft, hbuild⟩ := exists_of_bind_eq_ok h
  cases hresult : d.build with
  | error fault =>
    simp only [hresult] at hbuild
    cases hbuild
  | ok u =>
    simp only [hresult] at hbuild
    cases hbuild
    exact ⟨d, hdraft, hresult⟩

namespace Rules

/-- What is written before the bar that opens the parameters of a block. -/
def blockFront (s : Setting) : Text :=
  if s.braceBlocks then Text.lit "\x7b" else Text.lit " do" ++ [.optionalBlank]

/-- What is written of the parameters of a block is put between two bars. -/
theorem run_block {c : Field → FieldRendition} {l l' : Locals} {d : Draft}
    (hrun : ((block c).run s).run l = .ok (d, l')) :
    ∃ names l₁, (((c .parameters).ifPresent ((c .parameters).text .parameters)).run s).run l =
        .ok (names, l₁) ∧
      (names ≠ [] → ∃ front back : Draft, front.build = .ok (blockFront s) ∧
        d = front ++ (Draft.lit "|" ++ Draft.of names ++ Draft.lit "|") ++ back) := by
  rw [block, Writer.inInnerScope] at hrun
  obtain ⟨⟨d', l₂⟩, hinner, hend⟩ := exists_of_bind_eq_ok
    (e := ((_ : Writer Draft).run s).run l) (f := fun p => .ok (p.1, l)) hrun
  cases hend
  rw [ReaderT.run_bind, StateT.run_bind] at hinner
  obtain ⟨⟨names, l₁⟩, hnames, hrest⟩ := exists_of_bind_eq_ok hinner
  refine ⟨names, l₁, hnames, fun hpresent => ?_⟩
  have hsome : names.isEmpty = false := by simpa using hpresent
  suffices h : Writer.EnsuresIn s _ fun d => ∃ front back : Draft,
      front.build = .ok (blockFront s) ∧
        d = front ++ (Draft.lit "|" ++ Draft.of names ++ Draft.lit "|") ++ back from
    h l₁ d' l₂ hrest
  refine Writer.ensuresIn_read.bind ?_
  rintro _ rfl
  rw [hsome, blockFront]
  refine ensuresIn_ite (fun hbraces => EnsuresIn.after fun body => ensuresIn_pure ?_)
    fun hdo => EnsuresIn.after fun body => ensuresIn_pure ?_
  · rw [if_pos hbraces]
    exact ⟨Draft.lit "\x7b", body ++ Draft.lit "\x7d", Draft.build_lit _, by simp⟩
  · rw [if_neg hdo]
    exact ⟨Draft.lit " do" ++ Draft.of [.optionalBlank], body ++ Draft.lit "end",
      Draft.build_append (Draft.build_lit _) (Draft.build_of _), by simp⟩

/-- The bar that opens the parameters leaves the lexer between tokens. -/
theorem feedAll_blockFront (o : Options) (s : Setting) {m : Lexer.Mode} (hm : m.isSettled = true)
    (frames : List Lexer.Frame) :
    ∃ m' frames', m'.isSettled = true ∧
      Lexer.feedAll ⟨m, frames⟩ ((blockFront s).spell o ++ ['|']) = ⟨m', frames'⟩ := by
  have hplain {text : List Char} (h : ∀ c ∈ text, Lexer.isPlain c = true) {m : Lexer.Mode}
      (hm : m.isSettled = true) (frames : List Lexer.Frame) :
      ∃ m' frames', m'.isSettled = true ∧ Lexer.feedAll ⟨m, frames⟩ text = ⟨m', frames'⟩ := by
    obtain ⟨m', hm', hread⟩ := Lexer.closed_of_isPlain h m frames hm
    exact ⟨m', frames, hm', hread⟩
  rw [blockFront]
  split
  · rw [Text.lit, Text.spell_ofChars, Lexer.feedAll_append]
    have hbrace : Lexer.feedAll ⟨m, frames⟩ "\x7b".toList = ⟨.gap, .bracket :: frames⟩ :=
      Lexer.feed_opening hm frames rfl
    rw [hbrace]
    exact hplain (by decide) rfl _
  · refine hplain ?_ hm frames
    rw [Text.spell_append, Text.lit, Text.spell_ofChars]
    cases hblank : o.spaceAfterKeywords
    all_goals
      simp only [Text.spell, List.flatMap_cons, List.flatMap_nil, Glyph.spell, hblank]
      decide

end Rules

/-- The names in the text of a block stand between two bars, and the second one is the first bar
after the opening one that is outside of all brackets and strings in between. -/
def BarsDelimit (o : Options) (s : Setting) (names text : Text) : Prop :=
  ∃ back, text.spell o = (Rules.blockFront s).spell o ++ ['|'] ++ (names.spell o ++ '|' :: back) ∧
    ∀ m frames, m.isSettled = true →
      Lexer.nextBar? (Lexer.feedAll ⟨m, frames⟩ ((Rules.blockFront s).spell o ++ ['|']))
        (names.spell o ++ '|' :: back) = some (names.spell o).length

/-- It is enough that what is written of the parameters is sealed. -/
theorem Rules.barsDelimit_block {c : Field → FieldRendition} {l l' : Locals} {text : Text}
    (hpresent : (c .parameters).value.isNull = false)
    (hparameters : ((c .parameters).write .parameters).Seals o s)
    (hrun : ((block c).built.run s).run l = .ok (text, l')) :
    ∃ names l₁, (((c .parameters).text .parameters).run s).run l = .ok (names, l₁) ∧
      (names ≠ [] → BarsDelimit o s names text) := by
  obtain ⟨d, hdraft, hbuild⟩ := Writer.exists_of_run_built hrun
  obtain ⟨names, l₁, hnames, hbars⟩ := run_block hdraft
  rw [FieldRendition.ifPresent, if_neg (Bool.eq_false_iff.mp hpresent)] at hnames
  refine ⟨names, l₁, hnames, fun hsome => ?_⟩
  obtain ⟨front, back, hfront, rfl⟩ := hbars hsome
  have hsealed : Text.Sealed o names := hparameters.built l names l₁ hnames
  have hmiddle : (Draft.lit "|" ++ Draft.of names ++ Draft.lit "|").build =
      .ok (Text.lit "|" ++ names ++ Text.lit "|") :=
    Draft.build_append (Draft.build_append (Draft.build_lit _) (Draft.build_of _))
      (Draft.build_lit _)
  obtain ⟨_, rest, hbefore, hrest, rfl⟩ := (Draft.build_append_eq_ok_iff _ _ _).mp hbuild
  cases (Draft.build_append hfront hmiddle).symm.trans hbefore
  refine ⟨rest.spell o, ?_, fun m frames hm => ?_⟩
  · simp [Text.lit]
  · obtain ⟨m', frames', hm', hread⟩ := feedAll_blockFront o s hm frames
    rw [hread]
    exact Lexer.nextBar?_append hsealed.settled.closed hsealed.barless hm' frames' _

namespace Value

theorem isNull_of_isParameterList {v : Value} (h : v.isParameterList = true) :
    v.isNull = false := by
  cases v with
  | node kind field => rfl
  | _ => cases h

/-- **The bars delimit the parameters of a block** if no default shows a bar. -/
theorem block_bars_delimit (v : Value) (hblock : v.isKind .block = true)
    (hspelled : (v.field .parameters).isSpelledTree = true)
    (hparameters : (v.field .parameters).isParameterList = true) (s : Setting)
    (hdefaults : ∀ d ∈ (v.field .parameters).defaults,
      d.isHiddenAs .argument = true ∨ ¬d.ShowsBar s) (o : Options) (l l' : Locals) (text : Text)
    (hrun : ((v.rendition.text .block).run s).run l = .ok (text, l')) :
    ∃ names l₁, (((v.field .parameters).rendition.text .parameters).run s).run l =
        .ok (names, l₁) ∧ (names ≠ [] → BarsDelimit o s names text) := by
  obtain ⟨field, rfl⟩ := exists_of_kind? (eq_of_beq hblock)
  have hquiet : ¬(field .parameters).ShowsBar s :=
    not_showsBar_parameters hparameters hspelled hdefaults
  have hnull : (field .parameters).isNull = false := isNull_of_isParameterList hparameters
  rw [← rendition_value (field .parameters)] at hnull hquiet
  have hseal := (seals_rendition (o := o) hspelled s).whole .parameters rfl rfl (.inr hquiet)
  have hblock : (Value.node .block field).rendition.text .block =
      (Rules.block fun f => (field f).rendition).built := rfl
  rw [hblock] at hrun
  exact Rules.barsDelimit_block (c := fun f => (field f).rendition) hnull hseal hrun

/-- The union of two variables. -/
def union : Value :=
  .ofFields .call
    [(.receiver, .ofFields .localRead [(.name, .scalar (.str "a"))]), (.name, .scalar (.str "|")),
      (.arguments, .seq [.ofFields .localRead [(.name, .scalar (.str "b"))]])]

/-- A block with one parameter, which has a default. -/
def blockWithDefault (value : Value) : Value :=
  .ofFields .block
    [(.parameters, .ofFields .parameters
      [(.optionals, .seq
        [.ofFields .optionalParameter [(.name, .scalar (.str "x")), (.value, value)]])]),
      (.body, .ofFields .statements [])]

theorem block_bars_delimit_parentheses :
    let v := blockWithDefault (.ofFields .parentheses [(.body, union)])
    let s := Setting.ofOptions .default
    let text := Text.lit " do" ++ [.optionalBlank] ++ Text.lit "|x=(a|b)|" ++ [.separator] ++
      Text.lit "end"
    (v.field .parameters).isSpelledTree = true ∧
      (v.field .parameters).isParameterList = true ∧
      (∀ d ∈ (v.field .parameters).defaults, d.isHiddenAs .argument = true ∨ ¬d.ShowsBar s) ∧
      ((v.rendition.text .block).run s).run [] = .ok (text, []) ∧
      BarsDelimit .default s (Text.lit "x=(a|b)") text := by
  intro v s text
  have hspelled : (v.field .parameters).isSpelledTree = true := by decide
  have hlist : (v.field .parameters).isParameterList = true := by decide
  have hdefaults : ∀ d ∈ (v.field .parameters).defaults,
      d.isHiddenAs .argument = true ∨ ¬d.ShowsBar s := by
    intro d hd
    have hall : (v.field .parameters).defaults =
        [.ofFields .parentheses [(.body, union)], .null, .null, .null] := rfl
    have hcases : d = .ofFields .parentheses [(.body, union)] ∨ d = .null := by
      rw [hall] at hd
      simpa using hd
    obtain rfl | rfl := hcases
    · exact .inr not_showsBar_parentheses
    · refine .inr fun hbar => ?_
      obtain ⟨_, _, hnode⟩ := exists_of_showsBar hbar
      cases hnode
  have hrun : ((v.rendition.text .block).run s).run [] = .ok (text, []) := rfl
  obtain ⟨names, _, hnames, hbars⟩ :=
    block_bars_delimit v rfl hspelled hlist s hdefaults .default [] [] text hrun
  have heq : names = Text.lit "x=(a|b)" := by
    cases hnames
    rfl
  subst heq
  exact ⟨hspelled, hlist, hdefaults, hrun, hbars (by decide)⟩

/-- **A bar in a default is taken for the closing one.** -/
theorem render_union_default :
    (blockWithDefault union).isSpelledTree = true ∧
      ((blockWithDefault union).field .parameters).isParameterList = true ∧
      render .default (.ofFields .call
        [(.receiver, .null), (.name, .scalar (.str "f")), (.block, blockWithDefault union)]) =
        .ok "f do|x=a|b|;end" ∧
      Lexer.nextBar? (Lexer.after "f do|".toList) "x=a|b|;end".toList = some "x=a".length := by
  decide

end Value
end TerseRuby
