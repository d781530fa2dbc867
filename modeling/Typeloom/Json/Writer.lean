import Typeloom.Json.Basic
import Typeloom.Number.Notation
import Typeloom.Text.Hexadecimal

/-!
# Writing JSON

JSON is written in ASCII: every other character is an escape, or two for a character that needs a
surrogate pair.  The compact form puts a blank after each comma and colon; the indented form puts
every item and member on a line of its own.
-/

namespace Typeloom

namespace Json

def unitText (unit : Nat) : List Char :=
  '\\' :: 'u' :: Text.hexadecimal 4 unit

def writeCharacter (character : Char) : List Char :=
  if character = '\"' then ['\\', '\"']
  else if character = '\\' then ['\\', '\\']
  else if character = '\n' then ['\\', 'n']
  else if character = '\r' then ['\\', 'r']
  else if character = '\t' then ['\\', 't']
  else if character.toNat = 12 then ['\\', 'f']
  else if character.toNat = 8 then ['\\', 'b']
  else if 32 ≤ character.toNat && character.toNat < 127 then [character]
  else if character.toNat < 0x10000 then unitText character.toNat
  else
    let offset := character.toNat - 0x10000
    unitText (0xD800 + offset / 0x400) ++ unitText (0xDC00 + offset % 0x400)

def writeText (content : String) : List Char :=
  '\"' :: content.toList.flatMap writeCharacter ++ ['\"']

/-- A value without items or members. -/
def writeScalar : Json → List Char
  | .null => "null".toList
  | .bool value => (if value then "true" else "false").toList
  | .integer value => (Number.writeInteger value).toList
  | .number value => (Number.writeBinary "Infinity" "NaN" value).toList
  | .text value => writeText value
  | .array _ => ['[', ']']
  | .object _ => ['\x7b', '\x7d']

mutual

/-- A value on one line. -/
def compact : Json → List Char
  | .array items => '[' :: compactItems items ++ [']']
  | .object members => '\x7b' :: compactMembers members ++ ['\x7d']
  | .null => writeScalar .null
  | .bool value => writeScalar (.bool value)
  | .integer value => writeScalar (.integer value)
  | .number value => writeScalar (.number value)
  | .text value => writeScalar (.text value)

def compactItems : List Json → List Char
  | [] => []
  | [item] => compact item
  | item :: next :: rest => compact item ++ [',', ' '] ++ compactItems (next :: rest)

def compactMembers : List (String × Json) → List Char
  | [] => []
  | [(key, value)] => writeText key ++ [':', ' '] ++ compact value
  | (key, value) :: next :: rest =>
      writeText key ++ [':', ' '] ++ compact value ++ [',', ' '] ++ compactMembers (next :: rest)

end

/-- The break before a line of the given depth. -/
def lineBreak (depth : Nat) : List Char :=
  '\n' :: List.replicate (2 * depth) ' '

mutual

/-- A value over several lines, of which all but the first are indented by `depth` steps at
least. -/
def indented (depth : Nat) : Json → List Char
  | .array [] => ['[', ']']
  | .array (item :: rest) =>
      '[' :: indentedItems (depth + 1) (item :: rest) ++ lineBreak depth ++ [']']
  | .object [] => ['\x7b', '\x7d']
  | .object (member :: rest) =>
      '\x7b' :: indentedMembers (depth + 1) (member :: rest) ++ lineBreak depth ++ ['\x7d']
  | .null => writeScalar .null
  | .bool value => writeScalar (.bool value)
  | .integer value => writeScalar (.integer value)
  | .number value => writeScalar (.number value)
  | .text value => writeScalar (.text value)

def indentedItems (depth : Nat) : List Json → List Char
  | [] => []
  | [item] => lineBreak depth ++ indented depth item
  | item :: next :: rest =>
      lineBreak depth ++ indented depth item ++ [','] ++ indentedItems depth (next :: rest)

def indentedMembers (depth : Nat) : List (String × Json) → List Char
  | [] => []
  | [(key, value)] => lineBreak depth ++ writeText key ++ [':', ' '] ++ indented depth value
  | (key, value) :: next :: rest =>
      lineBreak depth ++ writeText key ++ [':', ' '] ++ indented depth value ++ [','] ++
        indentedMembers depth (next :: rest)

end

def write (value : Json) : String :=
  String.ofList (compact value)

/-- A value as the key of a member: a text as it is, and any other value as it is written. -/
def keyText : Json → String
  | .text value => value
  | value => write value

def writeIndented (value : Json) : String :=
  String.ofList (indented 0 value)

def quote (content : String) : String :=
  String.ofList (writeText content)

end Json

end Typeloom
