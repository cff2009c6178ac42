import TerseRuby.Tree.Equality

/-!
# Looking a value up

A name is looked up among other names: among the operators, and among the local variables.  Any
value can be a name, and two names are the same when they are equal as values; whether that holds
of not-a-number and itself depends on where the tree comes from.  But a value can be looked up only
if nothing in it is a container that could change, that is, an object or a list
kept as it was read; `Value.checkKey` fails with the type of the first such part.
-/

set_option autoImplicit false

namespace TerseRuby

/-- The type of a document that is a container. -/
def Json.containerType? : Json → Option String
  | .scalar _ => none
  | d => some d.typeName

/-- The type of the first part of a location that is a container. -/
def Location.containerType? (l : Location) : Option String :=
  l.entries.findSome? fun entry => entry.2.containerType?

namespace Value

mutual

/-- The type of the first part of a value that is a container and could change. -/
def containerType? : Value → Option String
  | .scalar _ => none
  | .table entries => some (typeName (.table entries))
  | .location l => l.containerType?
  | .seq items => itemContainerType? items
  | .node kind field => kind.ownFields.findSome? fun entry => containerType? (field entry.1)

/-- The type of the first such part of the items of a sequence. -/
def itemContainerType? : List Value → Option String
  | [] => none
  | v :: rest => (containerType? v).or (itemContainerType? rest)

end

/-- Fail for a value that cannot be looked up. -/
def checkKey (v : Value) : Except Fault Unit :=
  match v.containerType? with
  | none => .ok ()
  | some typeName => .error (.unhashable typeName)

/-- A text can be looked up. -/
@[simp] theorem checkKey_str (s : String) : checkKey (.scalar (.str s)) = .ok () := rfl

end Value
end TerseRuby
