import TerseRuby.Literal.String
import TerseRuby.Tree.Key

/-!
# The content of a string literal

The content of a string is a text, and `Literal.string` spells it.  A tree may have something else
there.  What has no elements is refused at once.  A sequence or an object is gone through like a
text, an element in the place of each character, and it is refused at the first element that cannot
be judged as a character is:

* an element has to be one that can be looked up and compared, which leaves texts;
* after a number sign the next element decides about the escape, so it has to be a text or count
  as absent, and it has to be found by its place, which an object does not have
  (`Content.escapeNumberSign`);
* a text of several characters is kept, unless it would have to be written by its code, which only
  a single character has (`Content.escapeText`).

What passes has a form between double quotes.  It is the literal if a control character rules out
the other form; otherwise that form is asked for, which only a text has.
-/

set_option autoImplicit false

namespace TerseRuby
namespace Content

/-- Whether an element of several characters is taken for a control character, by its first. -/
def isControlLike (chars : List Char) : Bool :=
  chars.head?.any (· < ' ') && chars != ['\n', '\t']

/-- A text in the place of a character other than the number sign. -/
def escapeText (text : String) : Except Fault (List Char) :=
  match text.toList with
  | [c] => .ok (Literal.escapeChar c [])
  | chars => if isControlLike chars then .error (.notCharacter chars.length) else .ok chars

/-- A number sign before the given element. -/
def escapeNumberSign (next : Value) : Except Fault (List Char) :=
  match next.text? with
  | some text => .ok (Literal.escapeChar '#' text.toList)
  | none => if next.isTrue then .error (.notSubtext next.typeName) else .ok ['#']

/-- An element in the place of a character; `next` finds the element after it. -/
def escapeElement (next : Except Fault Value) (v : Value) : Except Fault (List Char) := do
  v.checkKey
  match v.text? with
  | none => .error (.notOrdered v.typeName "str")
  | some text => if text == "#" then escapeNumberSign (← next) else escapeText text

/-- What comes after the elements: the closing quote. -/
def closing : Value := .scalar (.str "\"")

/-- The elements of some content from a place on, between double quotes. -/
def escapeFrom (content : Value) : Nat → List Value → Except Fault (List Char)
  | _, [] => .ok []
  | place, v :: rest => do
    let next := if rest.isEmpty then .ok closing else content.elementAt (place + 1)
    let head ← escapeElement next v
    return head ++ (← escapeFrom content (place + 1) rest)

/-- Whether an element is one control character. -/
def isControl (v : Value) : Bool :=
  match v.text?.map String.toList with
  | some [c] => CharClass.isControl c
  | _ => false

/-- The literal of a collection in the place of a text. -/
def collection (content : Value) : Except Fault (List Char) := do
  if !content.isCollection then .error (.noLength content.typeName)
  else
    let escaped ← escapeFrom content 0 content.elements
    if content.elements.any isControl then return '"' :: escaped ++ ['"']
    else .error (.missingMember content.typeName "replace")

/-- The string literal with some content. -/
def literal (content : Value) : Except Fault (List Char) :=
  match content.text? with
  | some text => .ok (Literal.string text.toList)
  | none => collection content

/-- A text is spelled as a string literal. -/
@[simp] theorem literal_str (s : String) :
    literal (.scalar (.str s)) = .ok (Literal.string s.toList) := rfl

end Content
end TerseRuby
