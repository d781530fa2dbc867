import Typeloom.Fault

/-!
# Parts of a JSON value

Operations that need a value of a certain shape, with the fault that a value of another shape
leads to.
-/

namespace Typeloom

namespace Json

/-- The values that a value runs through: the items of an array, the keys of an object or the
characters of a text. -/
def elements : Json → Except Fault (List Json)
  | .array items => .ok items
  | .object members => .ok (members.map fun member => .text member.1)
  | .text content => .ok (content.toList.map fun character => .text character.toString)
  | _ => .error .wrongType

def isHashable : Json → Bool
  | .array _ => false
  | .object _ => false
  | _ => true

def asKey (value : Json) : Except Fault Json :=
  if value.isHashable then .ok value else .error .wrongType

/-- The elements of a value, all of which must be able to be members of a set. -/
def setElements (value : Json) : Except Fault (List Json) := do
  let items ← value.elements
  items.mapM asKey

/-- The elements of a value that is present, and none of a value that is not. -/
def optionalSetElements (value : Json) : Except Fault (List Json) :=
  if value.isTruthy then value.setElements else .ok []

def count : Json → Except Fault Nat
  | .array items => .ok items.length
  | .object members => .ok members.length
  | .text content => .ok content.length
  | _ => .error .wrongType

/-- The members of a value that must be an object. -/
def membersOf : Json → Except Fault Members
  | .object members => .ok members
  | _ => .error .lacksPart

/-- A value that must be a text because a part of it is taken. -/
def textOf : Json → Except Fault String
  | .text content => .ok content
  | _ => .error .lacksPart

/-- A value that must be a text because it is joined to one. -/
def joinableText : Json → Except Fault String
  | .text content => .ok content
  | _ => .error .wrongType

end Json

end Typeloom
