import TerseRuby.Proofs.Acceptance.Grammar
import TerseRuby.Proofs.Locals.Rules

/-!
# Verdicts

The setting decides in which order a tree is written, and what of it is dropped, and so which
failure comes first.  It is not to decide whether there is a failure at all.

A `Verdict` says whether something is accepted, and it is one verdict for all settings and all local
variables: `Writer.Decided v Q w` says that every run of `w` succeeds, with a result that satisfies
`Q`, if the verdict is to accept, and that every run fails if it is not.  What writes one part after
the other is decided by the verdicts on the parts, in whatever order (`Verdict.and`), so a statement
about a rule follows the text of the rule.

A draft has a verdict of its own (`Draft.Decided`), because what stands in the place of a name is
noticed only when the draft is joined.

Verdicts come in two sorts.  A strict one can only be to accept, so that the same lemmas prove two
things: that verdicts exist, and that under stronger assumptions nothing is refused.
-/

set_option autoImplicit false

namespace TerseRuby

/-! ## Verdicts and outcomes -/

/-- Whether something is accepted; a strict verdict is to accept. -/
structure Verdict (strict : Bool) where
  /-- It is accepted. -/
  accepts : Prop
  /-- A strict verdict accepts. -/
  of_strict : strict = true → accepts

namespace Verdict

variable {strict : Bool} {α β : Type}

/-- Accepted. -/
def yes : Verdict strict := ⟨True, fun _ => trivial⟩

/-- Refused, which is no strict verdict. -/
def no (h : strict = false) : Verdict strict := ⟨False, fun hstrict => by simp [h] at hstrict⟩

/-- Accepted if both are. -/
def and (v u : Verdict strict) : Verdict strict :=
  ⟨v.accepts ∧ u.accepts, fun h => ⟨v.of_strict h, u.of_strict h⟩⟩

/-- Accepted if all items are. -/
def all (xs : List α) (v : α → Verdict strict) : Verdict strict :=
  ⟨∀ x ∈ xs, (v x).accepts, fun h x _ => (v x).of_strict h⟩

/-- Accepted if a computation has a result. -/
def ofResult (e : Except Fault α) (h : strict = true → ∃ a, e = .ok a) : Verdict strict :=
  ⟨∃ a, e = .ok a, h⟩

instance : Inhabited (Verdict strict) := ⟨.yes⟩

@[simp] theorem accepts_yes : (yes : Verdict strict).accepts ↔ True := Iff.rfl

@[simp] theorem accepts_and (v u : Verdict strict) :
    (v.and u).accepts ↔ v.accepts ∧ u.accepts := Iff.rfl

@[simp] theorem accepts_all (xs : List α) (v : α → Verdict strict) :
    (all xs v).accepts ↔ ∀ x ∈ xs, (v x).accepts := Iff.rfl

/-- An outcome is as a verdict says: a result with some property, or a failure. -/
inductive Decides (v : Verdict strict) (Q : α → Prop) (e : Except Fault α) : Prop where
  /-- There is a result. -/
  | accepted {a : α} (he : e = .ok a) (hv : v.accepts) (h : Q a)
  /-- There is a failure. -/
  | refused {fault : Fault} (he : e = .error fault) (hv : ¬ v.accepts)

/-- The verdict that asks for a result decides. -/
theorem decides_ofResult (e : Except Fault α) (h : strict = true → ∃ a, e = .ok a) :
    (ofResult e h).Decides (fun a => e = .ok a) e := by
  cases e with
  | error fault =>
    refine .refused rfl fun haccepts => ?_
    obtain ⟨a, ha⟩ := haccepts
    cases ha
  | ok a => exact .accepted rfl ⟨a, rfl⟩ rfl

namespace Decides

variable {v u : Verdict strict} {Q : α → Prop} {R : β → Prop} {e : Except Fault α}

theorem bind {k : α → Except Fault β} (he : v.Decides Q e)
    (hk : ∀ a, Q a → u.Decides R (k a)) : (v.and u).Decides R (e >>= k) := by
  rcases he with ⟨rfl, hv, h⟩ | ⟨rfl, hv⟩
  · rcases hk _ h with ⟨hka, hu, h⟩ | ⟨hka, hu⟩
    · exact .accepted hka ⟨hv, hu⟩ h
    · exact .refused hka fun h => hu h.2
  · exact .refused rfl fun h => hv h.1

theorem mono {Q' : α → Prop} (he : v.Decides Q e) (h : ∀ a, Q a → Q' a) : v.Decides Q' e := by
  rcases he with ⟨he, hv, hq⟩ | ⟨he, hv⟩
  · exact .accepted he hv (h _ hq)
  · exact .refused he hv

theorem congr (he : v.Decides Q e) (h : v.accepts ↔ u.accepts) : u.Decides Q e := by
  rcases he with ⟨he, hv, hq⟩ | ⟨he, hv⟩
  · exact .accepted he (h.mp hv) hq
  · exact .refused he fun hu => hv (h.mpr hu)

/-- The verdict says whether there is a result. -/
theorem accepts_iff (he : v.Decides Q e) : v.accepts ↔ ∃ a, e = .ok a := by
  rcases he with ⟨rfl, hv, _⟩ | ⟨rfl, hv⟩
  · exact ⟨fun _ => ⟨_, rfl⟩, fun _ => hv⟩
  · refine ⟨fun h => absurd h hv, fun h => ?_⟩
    obtain ⟨_, h⟩ := h
    cases h

theorem of_eq_ok (he : v.Decides Q e) {a : α} (h : e = .ok a) : Q a := by
  rcases he with ⟨he, _, hq⟩ | ⟨he, _⟩
  · rw [h] at he
    cases he
    exact hq
  · rw [h] at he
    cases he

end Decides
end Verdict

/-! ## Writers -/

namespace Writer

variable {strict : Bool} {α β : Type}

/-- Every run of a writer has the outcome that a verdict says, in all settings and with all local
variables. -/
def Decided (v : Verdict strict) (Q : α → Prop) (w : Writer α) : Prop :=
  ∀ s locals, v.Decides (fun out => Q out.1) ((w.run s).run locals)

variable {v u : Verdict strict} {Q : α → Prop} {R : β → Prop} {w : Writer α}

theorem decided_pure {a : α} (h : Q a) : Decided (.yes : Verdict strict) Q (pure a) :=
  fun _ _ => .accepted rfl trivial h

theorem decided_throw (h : strict = false) (fault : Fault) :
    Decided (.no h) Q (throw fault : Writer α) :=
  fun _ _ => .refused rfl id

theorem Decided.bind {k : α → Writer β} (hw : Decided v Q w)
    (hk : ∀ a, Q a → Decided u R (k a)) : Decided (v.and u) R (w >>= k) := by
  intro s locals
  rw [ReaderT.run_bind, StateT.run_bind]
  exact (hw s locals).bind fun out hout => hk out.1 hout s out.2

theorem Decided.mono {Q' : α → Prop} (hw : Decided v Q w) (h : ∀ a, Q a → Q' a) :
    Decided v Q' w :=
  fun s locals => (hw s locals).mono fun out => h out.1

theorem Decided.congr (hw : Decided v Q w) (h : v.accepts ↔ u.accepts) : Decided u Q w :=
  fun s locals => (hw s locals).congr h

/-- What is done with the result does not change the verdict. -/
theorem Decided.map {f : α → β} (hw : Decided v Q w) (hf : ∀ a, Q a → R (f a)) :
    Decided v R (f <$> w) := by
  rw [map_eq_pure_bind]
  exact (hw.bind fun a h => decided_pure (hf a h)).congr (by simp)

/-- What comes after a step that always succeeds. -/
theorem Decided.andThen {k : α → Writer β} (hw : Decided (.yes : Verdict strict) Q w)
    (hk : ∀ a, Q a → Decided u R (k a)) : Decided u R (w >>= k) :=
  (hw.bind hk).congr (by simp)

/-- A question about the tree that has an answer. -/
theorem decided_ask {γ : Type} {e : Except Fault γ} {answer : γ} (he : e = .ok answer)
    {k : γ → Writer β} (hk : Decided u R (k answer)) :
    Decided u R ((liftM e : Writer γ) >>= k) := by
  rw [he]
  exact hk

theorem decided_read {k : Setting → Writer β} (hk : ∀ s, Decided u R (k s)) :
    Decided u R (read >>= k) :=
  fun s locals => hk s s locals

theorem decided_get {k : Locals → Writer β} (hk : ∀ locals, Decided u R (k locals)) :
    Decided u R (get >>= k) :=
  fun s locals => hk locals s locals

/-- What is found out from the tree is decided by the tree. -/
theorem decided_liftM {e : Except Fault α} (he : v.Decides Q e) :
    Decided v Q (liftM e : Writer α) := by
  intro s locals
  rcases he with ⟨rfl, hv, h⟩ | ⟨rfl, hv⟩
  · exact .accepted rfl hv h
  · exact .refused rfl hv

/-- Entering a name is refused if it cannot be looked up. -/
theorem decided_declare (name : Value) (h : strict = true → ∃ a, name.checkKey = .ok a) :
    Decided (.ofResult name.checkKey h) (fun _ => True) (declare name) :=
  (decided_liftM (Verdict.decides_ofResult _ h)).bind (u := .yes) (R := fun _ => True)
    (fun _ _ _ _ => .accepted rfl trivial trivial) |>.congr (by simp)

theorem Decided.withLocals (start : Locals → Locals) (hw : Decided v Q w) :
    Decided v Q (withLocals start w) := by
  have hset (locals : Locals) :
      Decided (.yes : Verdict strict) (fun _ => True) (set locals : Writer Unit) :=
    fun _ _ => .accepted rfl trivial trivial
  refine decided_get fun outer => (hset (start outer)).andThen fun _ _ => ?_
  exact (hw.bind fun a h => (hset outer).andThen fun _ _ => decided_pure h).congr (by simp)

theorem Decided.withBraces (braces : Bool) (hw : Decided v Q w) :
    Decided v Q (withBraces braces w) :=
  fun s locals => hw { s with braceBlocks := braces } locals

/-- Items one after the other are accepted if all of them are. -/
theorem decided_mapM {γ : Type} {xs : List γ} {f : γ → Writer α} {v : γ → Verdict strict}
    {P : γ → α → Prop} (h : ∀ x ∈ xs, Decided (v x) (P x) (f x)) :
    Decided (.all xs v) (List.Forall₂ P xs) (xs.mapM f) := by
  induction xs with
  | nil => exact (decided_pure .nil).congr (by simp)
  | cons x xs ih =>
    obtain ⟨hhead, htail⟩ := List.forall_mem_cons.mp h
    rw [List.mapM_cons]
    exact (hhead.bind fun a ha => (ih htail).bind fun as has =>
      decided_pure (.cons ha has)).congr (by simp)

end Writer

/-! ## Texts and drafts -/

/-- A text, which is not empty if it is to be firm. -/
def Text.IsFirm (firm : Bool) (t : Text) : Prop := firm = true → t ≠ []

namespace Text

variable {firm firm' : Bool} {s t : Text}

theorem isFirm_false (t : Text) : t.IsFirm false := by
  intro hfalse
  cases hfalse

theorem isFirm_ofChars {cs : List Char} (h : cs ≠ []) : (ofChars cs).IsFirm true :=
  fun _ hempty => h (List.map_eq_nil_iff.mp hempty)

theorem isFirm_lit {text : String} (h : text ≠ "") : (lit text).IsFirm true :=
  isFirm_ofChars fun hempty => h (String.toList_eq_nil_iff.mp hempty)

theorem IsFirm.append (hs : s.IsFirm firm) (ht : t.IsFirm firm') :
    (s ++ t).IsFirm (firm || firm') := by
  intro hfirm hempty
  obtain ⟨rfl, rfl⟩ := List.append_eq_nil_iff.mp hempty
  rcases Bool.or_eq_true_iff.mp hfirm with hfirm | hfirm
  · exact hs hfirm rfl
  · exact ht hfirm rfl

theorem IsFirm.grouped (ht : t.IsFirm firm) (needed : Bool) : (t.grouped needed).IsFirm firm := by
  rw [Text.grouped]
  split
  · intro _ hempty
    simp [Text.parenthesized, lit, ofChars] at hempty
  · exact ht

/-- Two operands have a text because of the operator between them. -/
theorem isFirm_joinInfix (leftIsSymbol : Bool) (left : Text) {operator : String}
    (h : operator ≠ "") (right : Text) : (joinInfix leftIsSymbol left operator right).IsFirm true :=
  ((isFirm_false _).append (isFirm_lit h)).append (isFirm_false right)

end Text

namespace Draft

variable {strict firm firm' : Bool} {v u : Verdict strict} {d e : Draft}

/-- A draft can be joined, or not, as a verdict says. -/
def Decided (v : Verdict strict) (firm : Bool) (d : Draft) : Prop :=
  v.Decides (Text.IsFirm firm) d.build

theorem decided_of {t : Text} (h : t.IsFirm firm) :
    (of t).Decided (.yes : Verdict strict) firm :=
  .accepted (build_of t) trivial h

theorem decided_nil : Decided (.yes : Verdict strict) false [] :=
  .accepted rfl trivial (Text.isFirm_false _)

theorem decided_lit {text : String} (h : text ≠ "") :
    (lit text).Decided (.yes : Verdict strict) true :=
  decided_of (Text.isFirm_lit h)

theorem decided_text (t : Text) : (of t).Decided (.yes : Verdict strict) false :=
  decided_of (Text.isFirm_false t)

theorem decided_separator : separator.Decided (.yes : Verdict strict) true :=
  decided_of fun _ hempty => by cases hempty

theorem Decided.loosen (h : d.Decided v firm) : d.Decided v false :=
  h.mono fun t _ => t.isFirm_false

theorem Decided.accepts_iff (h : d.Decided v firm) : v.accepts ↔ ∃ t, d.build = .ok t :=
  Verdict.Decides.accepts_iff h

theorem Decided.of_eq_ok (h : d.Decided v firm) {t : Text} (ht : d.build = .ok t) :
    t.IsFirm firm :=
  Verdict.Decides.of_eq_ok h ht

theorem Decided.congr (h : d.Decided v firm) (hiff : v.accepts ↔ u.accepts) : d.Decided u firm :=
  Verdict.Decides.congr h hiff

/-- Two drafts one after the other can be joined if both can. -/
theorem Decided.append (hd : d.Decided v firm) (he : e.Decided u firm') :
    (d ++ e).Decided (v.and u) (firm || firm') := by
  have hiff : (v.and u).accepts ↔ ∃ t, (d ++ e).build = .ok t := by
    show v.accepts ∧ u.accepts ↔ _
    simp only [build_append_eq_ok_iff]
    rw [hd.accepts_iff, he.accepts_iff]
    constructor
    · rintro ⟨⟨s, hs⟩, ⟨s', hs'⟩⟩
      exact ⟨s ++ s', s, s', hs, hs', rfl⟩
    · rintro ⟨t, s, s', hs, hs', _⟩
      exact ⟨⟨s, hs⟩, ⟨s', hs'⟩⟩
  rcases hbuild : (d ++ e).build with fault | t
  · refine .refused hbuild fun haccepts => ?_
    obtain ⟨t, ht⟩ := hiff.mp haccepts
    rw [hbuild] at ht
    cases ht
  · obtain ⟨s, s', hs, hs', rfl⟩ := (build_append_eq_ok_iff d e t).mp hbuild
    exact .accepted hbuild (hiff.mpr ⟨_, hbuild⟩) ((hd.of_eq_ok hs).append (he.of_eq_ok hs'))

theorem Decided.parenthesized (h : d.Decided v firm) : d.parenthesized.Decided v true :=
  (((decided_lit (by decide)).append h).append (decided_lit (by decide))).congr (by simp)

theorem Decided.grouped (h : d.Decided v firm) (needed : Bool) :
    (d.grouped needed).Decided v firm := by
  rw [Draft.grouped]
  split
  · exact h.parenthesized.mono fun t ht _ => ht rfl
  · exact h

/-- A name, which is a text that is not empty. -/
theorem decided_name {name : Value} (h : name.isName = true) :
    (word name).Decided (.yes : Verdict strict) true := by
  obtain ⟨text, htext, hne⟩ := (Option.any_eq_true _ _).mp h
  rw [word, htext]
  exact decided_lit (by simpa using hne)

theorem decided_word_of_isText {name : Value} (h : name.isText = true) :
    (word name).Decided (.yes : Verdict strict) false := by
  obtain ⟨text, rfl⟩ := Value.exists_of_isText h
  exact decided_text _

/-- What stands in the place of a name is refused if it is present and no text. -/
theorem decided_word (name : Value) (h : strict = true → name.isWord = true) :
    (word name).Decided ⟨name.isWord = true, h⟩ false := by
  cases htext : name.text? with
  | some text =>
    refine .accepted (a := Text.lit text) ?_ (by simp [Value.isWord, htext]) (Text.isFirm_false _)
    rw [word, htext, build_lit]
  | none =>
    by_cases htrue : name.isTrue = true
    · have hbuild : (word name).build = .error (.notText name.typeName 0 0) := by
        rw [word, htext, if_pos htrue]
        rfl
      exact .refused hbuild (by simp [Value.isWord, htext, htrue])
    · refine .accepted (a := []) ?_ (by simp [Value.isWord, htext, htrue]) (Text.isFirm_false _)
      rw [word, htext, if_neg htrue]
      rfl

/-- Drafts one after the other can be joined if all of them can. -/
theorem decided_flatten {α : Type} {xs : List α} {v : α → Verdict strict} {ds : List Draft}
    (h : List.Forall₂ (fun x d => d.Decided (v x) false) xs ds) :
    Decided (.all xs v) false ds.flatten := by
  induction h with
  | nil => exact decided_nil.congr (by simp)
  | cons hd _ ih =>
    rw [List.flatten_cons]
    exact (hd.append ih).congr (by simp)

theorem decided_afterKeyword (t : Text) :
    (afterKeyword t).Decided (.yes : Verdict strict) false :=
  ((decided_text _).append (decided_text t)).congr (by simp)

theorem decided_assigned (t : Text) : (assigned t).Decided (.yes : Verdict strict) true := by
  have hequals : t.equals.IsFirm true := by
    rw [Text.equals]
    split
    · exact Text.isFirm_lit (by decide)
    · exact Text.isFirm_lit (by decide)
  exact ((decided_of hequals).append (decided_text t)).congr (by simp)

end Draft

namespace Writer

/-- Whether a writer has a draft that can be joined does not depend on the run. -/
def Drafts (strict firm : Bool) (w : Writer Draft) : Prop :=
  ∃ v u : Verdict strict, w.Decided v (Draft.Decided u firm)

/-- Whether a writer has a result, and then one with some property, does not depend on the run. -/
def IsDecided (strict : Bool) {α : Type} (Q : α → Prop) (w : Writer α) : Prop :=
  ∃ v : Verdict strict, w.Decided v Q

/-- Whether a writer has a text does not depend on the run. -/
def Texts (strict firm : Bool) (w : Writer Text) : Prop := w.IsDecided strict (Text.IsFirm firm)

variable {strict firm : Bool}

theorem Drafts.loosen {w : Writer Draft} (h : w.Drafts strict firm) : w.Drafts strict false := by
  obtain ⟨v, u, h⟩ := h
  exact ⟨v, u, h.mono fun d hd => hd.loosen⟩

theorem Texts.loosen {w : Writer Text} (h : w.Texts strict firm) : w.Texts strict false := by
  obtain ⟨v, h⟩ := h
  exact ⟨v, h.mono fun t _ => t.isFirm_false⟩

/-- A draft that is joined at once. -/
theorem Drafts.built {w : Writer Draft} (h : w.Drafts strict firm) : w.built.Texts strict firm := by
  obtain ⟨v, u, h⟩ := h
  exact ⟨_, h.bind fun d hd => decided_liftM hd⟩

/-- A text as a draft. -/
theorem Texts.drafts {w : Writer Text} (h : w.Texts strict firm) :
    (Draft.of <$> w).Drafts strict firm := by
  obtain ⟨v, h⟩ := h
  exact ⟨v, .yes, h.map fun t ht => Draft.decided_of ht⟩

theorem drafts_pure {d : Draft} (h : d.Decided (.yes : Verdict strict) firm) :
    Drafts strict firm (pure d) :=
  ⟨.yes, .yes, decided_pure h⟩

theorem drafts_throw (h : strict = false) (fault : Fault) : Drafts strict firm (throw fault) :=
  ⟨.no h, .yes, decided_throw h fault⟩

/-- A question about the tree that has an answer, before a draft is written. -/
theorem drafts_ask {γ : Type} {e : Except Fault γ} {answer : γ} (he : e = .ok answer)
    {k : γ → Writer Draft} (hk : (k answer).Drafts strict firm) :
    ((liftM e : Writer γ) >>= k).Drafts strict firm := by
  obtain ⟨v, u, hk⟩ := hk
  exact ⟨v, u, decided_ask he hk⟩

/-- Texts one after the other. -/
theorem isDecided_mapM {γ : Type} {xs : List γ} {f : γ → Writer Text}
    (h : ∀ x ∈ xs, (f x).Texts strict false) : (xs.mapM f).IsDecided strict fun _ => True := by
  choose! v hv using h
  exact ⟨_, (decided_mapM hv).mono fun _ _ => trivial⟩

/-- Drafts one after the other. -/
theorem drafts_mapM {γ : Type} {xs : List γ} {f : γ → Writer Draft}
    (h : ∀ x ∈ xs, (f x).Drafts strict false) : ∃ v u : Verdict strict,
      (xs.mapM f).Decided v fun ds => Draft.Decided u false ds.flatten := by
  choose! v u hv using h
  exact ⟨_, _, (decided_mapM hv).mono fun ds hds => Draft.decided_flatten hds⟩

/-- A name that is a text, or nothing, can be entered. -/
theorem decided_declare_text {name : Value} (h : name.isOptionalText = true) :
    (declare name).Decided (.yes : Verdict strict) fun _ => True :=
  (decided_declare name fun _ => Value.isAnswered_checkKey h).congr
    ⟨fun _ => trivial, fun _ => Value.isAnswered_checkKey h⟩

end Writer
end TerseRuby
