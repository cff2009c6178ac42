import TerseRuby.Tree.Value

/-!
# Values shown inside a text

A number literal shows whatever value it was given, and so does the name of a parameter that has a
default or is given by name.  What a text shows of a value is `Value.display`: a text or a location
as it is, and a container by its items, each as `Value.quoted` shows it.  A value with a number in
it that has too many digits cannot be shown (`Value.shown`).
-/

set_option autoImplicit false

namespace TerseRuby

/-- A location inside a container: its parts, each after its name. -/
def Location.quoted (l : Location) : String :=
  Quoted.enclosed (kindName ++ "(") ")" (l.entries.map fun entry =>
    entry.1 ++ "=" ++ entry.2.quoted)

namespace Value

/-- The shown items of a sequence between parentheses; a single one has a comma after it. -/
def quotedSequence : List String → String
  | [only] => "(" ++ only ++ ",)"
  | items => Quoted.enclosed "(" ")" items

mutual

/-- A value inside a container. -/
def quoted : Value → String
  | .scalar s => s.quoted
  | .table entries => (Json.object entries).quoted
  | .location l => l.quoted
  | .seq items => quotedSequence (quotedItems items)
  | .node kind field =>
    Quoted.enclosed (kind.name ++ "(") ")" (kind.fields.map fun entry =>
      entry.1.spelling ++ "=" ++ quoted (field entry.1))

/-- The items of a sequence inside a container. -/
def quotedItems : List Value → List String
  | [] => []
  | v :: rest => quoted v :: quotedItems rest

end

/-- A value by itself. -/
def display : Value → String
  | .scalar s => s.display
  | .location l => l.text
  | .table entries => quoted (.table entries)
  | .seq items => quoted (.seq items)
  | .node kind field => quoted (.node kind field)

mutual

/-- Whether a value has a whole number in it with more digits than are written. -/
def hasLong : Value → Bool
  | .scalar s => s.isLong
  | .table entries => (Json.object entries).hasLong
  | .location l => l.entries.any fun entry => entry.2.hasLong
  | .seq items => itemsHaveLong items
  | .node kind field => kind.fields.any fun entry => hasLong (field entry.1)

/-- Whether an item of a sequence has such a number in it. -/
def itemsHaveLong : List Value → Bool
  | [] => false
  | v :: rest => hasLong v || itemsHaveLong rest

end

/-- A value by itself, if the numbers in it can be written. -/
def shown : Value → Except Fault String
  | .location l => l.shown
  | v => if v.hasLong then .error .numberTooLong else .ok v.display

/-- What is shown is the display. -/
theorem shown_cases (v : Value) : v.shown = .ok v.display ∨ v.shown = .error .numberTooLong := by
  have hif (p : Prop) [Decidable p] (text : String) :
      (if p then .error .numberTooLong else .ok text : Except Fault String) = .ok text ∨
        (if p then .error .numberTooLong else .ok text : Except Fault String) =
          .error .numberTooLong := by
    split
    · exact .inr rfl
    · exact .inl rfl
  cases v with
  | location l => exact hif _ _
  | _ => exact hif _ _

theorem display_of_shown {v : Value} {text : String} (h : v.shown = .ok text) :
    text = v.display := by
  obtain hshown | hshown := v.shown_cases
  · exact Except.ok.inj (h.symm.trans hshown)
  · rw [hshown] at h
    cases h

/-- A text is shown as it is. -/
@[simp] theorem shown_str (s : String) : shown (.scalar (.str s)) = .ok s := rfl

theorem shown_int (n : Int) : shown (.scalar (.int n)) =
    if Decimal.isLong n then .error .numberTooLong else .ok (Scalar.int n).display := rfl

end Value
end TerseRuby
