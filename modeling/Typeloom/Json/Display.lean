import Typeloom.Json.Basic
import Typeloom.Number.Notation
import Typeloom.Text.Quoted

/-!
# JSON values in messages and signatures

A value is displayed with its texts quoted and with words for what is no number and no text.  A
text that stands alone is shown as it is.
-/

namespace Typeloom

namespace Json

mutual

/-- A value with its texts quoted. -/
def display : Json → String
  | .null => "None"
  | .bool value => if value then "True" else "False"
  | .integer value => Number.writeInteger value
  | .number value => Number.writeBinary "inf" "nan" value
  | .text value => Text.quoted value
  | .array items => "[" ++ displayItems items ++ "]"
  | .object members => "\x7b" ++ displayMembers members ++ "\x7d"

def displayItems : List Json → String
  | [] => ""
  | [item] => display item
  | item :: next :: rest => display item ++ ", " ++ displayItems (next :: rest)

def displayMembers : List (String × Json) → String
  | [] => ""
  | [(key, value)] => Text.quoted key ++ ": " ++ display value
  | (key, value) :: next :: rest =>
      Text.quoted key ++ ": " ++ display value ++ ", " ++ displayMembers (next :: rest)

end

/-- A value as a part of a message. -/
def inMessage : Json → String
  | .text value => value
  | value => display value

end Json

end Typeloom
