import Typeloom.Json.Basic

/-!
# Equality of JSON values

Two values are the same if they differ at most in the order of object members and in the way a
number is written: `1`, `1.0` and `true` are the same, and so are `0` and `false`.
-/

namespace Typeloom

namespace Json

def ofBool (value : Bool) : Int :=
  if value then 1 else 0

mutual

/-- Whether two values are the same.  What is not a number is the same as itself. -/
def same : Json → Json → Bool
  | .null, .null => true
  | .bool left, .bool right => left == right
  | .bool left, .integer right => ofBool left == right
  | .bool left, .number right => right.equalsInteger (ofBool left)
  | .integer left, .bool right => left == ofBool right
  | .integer left, .integer right => left == right
  | .integer left, .number right => right.equalsInteger left
  | .number left, .bool right => left.equalsInteger (ofBool right)
  | .number left, .integer right => left.equalsInteger right
  | .number left, .number right => left.sameValue right
  | .text left, .text right => left == right
  | .array left, .array right => sameItems left right
  | .object left, .object right =>
      left.length == right.length && sameMembers left right
  | _, _ => false

def sameItems : List Json → List Json → Bool
  | [], [] => true
  | left :: lefts, right :: rights => same left right && sameItems lefts rights
  | _, _ => false

/-- Whether every member of the first object occurs in the second one. -/
def sameMembers : List (String × Json) → List (String × Json) → Bool
  | [], _ => true
  | (key, value) :: rest, others =>
      (match others.lookup key with
        | some other => same value other
        | none => false)
      && sameMembers rest others

end

/-- Whether two values compare equal.  Outside of arrays and objects what is not a number differs
from everything. -/
def equal : Json → Json → Bool
  | .number .notANumber, _ => false
  | left, right => same left right

end Json

end Typeloom
