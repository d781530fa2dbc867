import Typeloom.Number.Binary64
import Typeloom.Table

/-!
# JSON values

Integers are unbounded and kept apart from binary numbers.  An object is the list of its members
in the order in which their keys first occur.
-/

namespace Typeloom

inductive Json where
  | null
  | bool (value : Bool)
  | integer (value : Int)
  | number (value : Binary64)
  | text (value : String)
  | array (items : List Json)
  | object (members : List (String × Json))
deriving Inhabited, Repr

namespace Json

abbrev Members := Table String Json

mutual

/-- Whether two values are one and the same. -/
def identical (left right : Json) : Bool :=
  match left, right with
  | .null, .null => true
  | .bool left, .bool right => left = right
  | .integer left, .integer right => left = right
  | .number left, .number right => left = right
  | .text left, .text right => left = right
  | .array left, .array right => identicalItems left right
  | .object left, .object right => identicalMembers left right
  | _, _ => false

def identicalItems (left right : List Json) : Bool :=
  match left, right with
  | [], [] => true
  | first :: left, second :: right => identical first second && identicalItems left right
  | _, _ => false

def identicalMembers (left right : List (String × Json)) : Bool :=
  match left, right with
  | [], [] => true
  | (key, first) :: left, (other, second) :: right =>
      key = other && identical first second && identicalMembers left right
  | _, _ => false

end

mutual

theorem identical_iff (left right : Json) : identical left right = true ↔ left = right := by
  cases left <;> cases right <;>
    simp [identical, identicalItems_iff, identicalMembers_iff]

theorem identicalItems_iff (left right : List Json) :
    identicalItems left right = true ↔ left = right := by
  cases left <;> cases right <;> simp [identicalItems, identical_iff, identicalItems_iff]

theorem identicalMembers_iff (left right : List (String × Json)) :
    identicalMembers left right = true ↔ left = right := by
  rcases left with - | ⟨⟨key, value⟩, left⟩ <;> rcases right with - | ⟨⟨other, item⟩, right⟩ <;>
    simp [identicalMembers, identical_iff, identicalMembers_iff]

end

instance : DecidableEq Json :=
  fun left right => decidable_of_iff _ (identical_iff left right)

def hasMember (members : Members) (key : String) : Bool :=
  Table.contains members key

/-- The value under a key, or null if the key does not occur. -/
def memberOrNull (members : Members) (key : String) : Json :=
  (Table.get? members key).getD .null

/-- Whether a value counts as present: null, false, zero and what is empty do not. -/
def isTruthy : Json → Bool
  | .null => false
  | .bool value => value
  | .integer value => value != 0
  | .number value => !value.isZero
  | .text value => !value.isEmpty
  | .array items => !items.isEmpty
  | .object members => !members.isEmpty

/-- The schema name of the type of a value.  Arrays and objects are both called object. -/
def schemaType : Json → String
  | .bool _ => "boolean"
  | .integer _ => "integer"
  | .number _ => "number"
  | .text _ => "string"
  | .null => "null"
  | .array _ => "object"
  | .object _ => "object"

def isText (value : Json) (content : String) : Bool :=
  match value with
  | .text content' => content' = content
  | _ => false

def text? : Json → Option String
  | .text value => some value
  | _ => none

end Json

end Typeloom
