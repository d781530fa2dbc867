/-!
# UTF-8

The bytes of a text, and the text of bytes.  A sequence of bytes that is no character is a defect:
it says how many bytes it covers, which is one byte up to the longest start of a character.
-/

namespace Typeloom

namespace Encoding

def utf8Character (character : Char) : List UInt8 :=
  let code := character.toNat
  if code < 0x80 then [UInt8.ofNat code]
  else if code < 0x800 then
    [UInt8.ofNat (0xC0 + code / 0x40), UInt8.ofNat (0x80 + code % 0x40)]
  else if code < 0x10000 then
    [UInt8.ofNat (0xE0 + code / 0x1000), UInt8.ofNat (0x80 + code / 0x40 % 0x40),
      UInt8.ofNat (0x80 + code % 0x40)]
  else
    [UInt8.ofNat (0xF0 + code / 0x40000), UInt8.ofNat (0x80 + code / 0x1000 % 0x40),
      UInt8.ofNat (0x80 + code / 0x40 % 0x40), UInt8.ofNat (0x80 + code % 0x40)]

def utf8Characters (text : List Char) : List UInt8 :=
  text.flatMap utf8Character

def utf8 (text : String) : List UInt8 :=
  utf8Characters text.toList

/-- Bytes that are no character: how many, and why. -/
structure Defect where
  length : Nat
  reason : String
deriving DecidableEq, Repr, Inhabited

/-- A sequence of bytes that stops before its end. -/
def Defect.invalidContinuation (length : Nat) : Defect :=
  ⟨length, "invalid continuation byte"⟩

/-- A sequence of bytes that the end of the bytes cuts off. -/
def Defect.unexpectedEnd (length : Nat) : Defect :=
  ⟨length, "unexpected end of data"⟩

def isContinuation (byte : Nat) : Bool :=
  0x80 ≤ byte && byte < 0xC0

/-- The number of bytes of a character that begins with a byte above the ASCII range, or zero if
none does. -/
def sequenceLength (first : Nat) : Nat :=
  if 0xC2 ≤ first && first < 0xE0 then 2
  else if 0xE0 ≤ first && first < 0xF0 then 3
  else if 0xF0 ≤ first && first < 0xF5 then 4
  else 0

/-- Whether a byte may be the second one of a character. -/
def isSecondByte (first second : Nat) : Bool :=
  isContinuation second &&
    (if first = 0xE0 then 0xA0 ≤ second
    else if first = 0xED then second < 0xA0
    else if first = 0xF0 then 0x90 ≤ second
    else if first = 0xF4 then second < 0x90
    else true)

def sequenceValue (first : Nat) (rest : List Nat) : Nat :=
  let lead :=
    if rest.length = 1 then first - 0xC0 else if rest.length = 2 then first - 0xE0 else first - 0xF0
  rest.foldl (fun value byte => value * 0x40 + (byte - 0x80)) lead

/-- The character that begins with a byte, and the number of bytes it takes after that one. -/
def decodeCharacter (first : UInt8) (rest : List UInt8) : Except Defect (Char × Nat) :=
  let lead := first.toNat
  let length := sequenceLength lead
  if lead < 0x80 then .ok (Char.ofNat lead, 0)
  else if length = 0 then .error ⟨1, "invalid start byte"⟩
  else
    let followers := (rest.take (length - 1)).map UInt8.toNat
    match followers with
    | [] => .error (.unexpectedEnd 1)
    | second :: others =>
        if !isSecondByte lead second then .error (.invalidContinuation 1)
        else
          let good := 1 + (others.takeWhile isContinuation).length
          if good = length - 1 then .ok (Char.ofNat (sequenceValue lead followers), good)
          else if good < followers.length then .error (.invalidContinuation (good + 1))
          else .error (.unexpectedEnd (good + 1))

/-- The bytes that stand for half of a surrogate pair, which some readers let pass. -/
def isSurrogateSequence : List UInt8 → Bool
  | first :: second :: third :: _ =>
      first.toNat = 0xED && 0xA0 ≤ second.toNat && second.toNat < 0xC0 &&
        isContinuation third.toNat
  | _ => false

def replacement : Char := Char.ofNat 0xFFFD

/-- The text of bytes, or the place and the kind of the first defect.  `position` is the number of
bytes before, and `lenient` lets halves of surrogate pairs pass. -/
def decodeUtf8 (lenient : Bool) (position : Nat) :
    List UInt8 → Except (Nat × Defect) (List Char)
  | [] => .ok []
  | first :: rest =>
      match decodeCharacter first rest with
      | .ok (character, used) => do
          let text ← decodeUtf8 lenient (position + 1 + used) (rest.drop used)
          return character :: text
      | .error defect =>
          if lenient && isSurrogateSequence (first :: rest) then do
            let text ← decodeUtf8 lenient (position + 3) (rest.drop 2)
            return replacement :: text
          else .error (position, defect)
termination_by bytes => bytes.length
decreasing_by all_goals (simp [List.length_drop]; try omega)

/-- The text of bytes, with a replacement character for every defect. -/
def utf8Lenient : List UInt8 → List Char
  | [] => []
  | first :: rest =>
      match decodeCharacter first rest with
      | .ok (character, used) => character :: utf8Lenient (rest.drop used)
      | .error defect => replacement :: utf8Lenient (rest.drop (defect.length - 1))
termination_by bytes => bytes.length
decreasing_by all_goals (simp [List.length_drop]; try omega)

end Encoding

end Typeloom
