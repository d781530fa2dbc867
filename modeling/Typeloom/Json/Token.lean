import Typeloom.Json.Basic
import Typeloom.Number.Notation
import Typeloom.Text.Hexadecimal

/-!
# JSON tokens

A JSON text is cut into tokens, each with the position where it begins.  A text that is not
closed or holds a bad escape is a token of its own that carries its problem, so that whoever
reads the tokens decides which of several problems comes first.
-/

namespace Typeloom

namespace Json

structure Problem where
  message : String
  /-- The number of characters before the place. -/
  position : Nat
deriving DecidableEq, Repr, Inhabited

inductive Token where
  | openObject
  | closeObject
  | openArray
  | closeArray
  | comma
  | colon
  | quotedText (value : String)
  /-- A word or a numeral. -/
  | scalar (value : Json)
  /-- A text that cannot be read. -/
  | brokenText (problem : Problem)
  /-- An integer with more digits than may be read. -/
  | longInteger (digits : Nat)
  /-- A character that begins no token. -/
  | unknown
deriving Repr, Inhabited

def isSpace (character : Char) : Bool :=
  character = ' ' || character = '\t' || character = '\n' || character = '\r'

/-- The character that stands for half of a surrogate pair whose other half is missing. -/
def loneSurrogate : Char := Char.ofNat 0xFFFD

/-- The value of four hexadecimal digits that something follows. -/
def hexadecimalUnit? (text : List Char) : Option Nat :=
  if 4 < text.length then Text.ofHexadecimal? (text.take 4) else none

def isHighSurrogate (unit : Nat) : Bool :=
  0xD800 ≤ unit && unit < 0xDC00

def isLowSurrogate (unit : Nat) : Bool :=
  0xDC00 ≤ unit && unit < 0xE000

/-- The character of a surrogate pair. -/
def ofSurrogates (high low : Nat) : Char :=
  Char.ofNat (0x10000 + (high - 0xD800) * 0x400 + (low - 0xDC00))

def ofUnit (unit : Nat) : Char :=
  if isHighSurrogate unit || isLowSurrogate unit then loneSurrogate else Char.ofNat unit

def letterEscape? (letter : Char) : Option Char :=
  match letter with
  | '\"' => some '\"'
  | '\\' => some '\\'
  | '/' => some '/'
  | 'b' => some (Char.ofNat 8)
  | 'f' => some (Char.ofNat 12)
  | 'n' => some '\n'
  | 'r' => some '\r'
  | 't' => some '\t'
  | _ => none

/-- The problem of an escape of four digits whose letter stands at `position`. -/
def unitProblem (position : Nat) : Problem :=
  ⟨"Invalid \\uXXXX escape", position⟩

/-- Read the four digits of an escape, and a second escape if the two form a surrogate pair.
`position` is that of the letter before the digits.  The count is of the characters used. -/
def unitEscape (position : Nat) (text : List Char) : Except Problem (Char × Nat) :=
  match hexadecimalUnit? text with
  | none => .error (unitProblem position)
  | some high =>
      match text.drop 4 with
      | '\\' :: 'u' :: more =>
          if isHighSurrogate high && 4 < more.length then
            match hexadecimalUnit? more with
            | none => .error (unitProblem (position + 6))
            | some low =>
                if isLowSurrogate low then .ok (ofSurrogates high low, 10)
                else .ok (ofUnit high, 4)
          else .ok (ofUnit high, 4)
      | _ => .ok (ofUnit high, 4)

/-- Read what follows a backslash at `position`; `start` is the position of the quote that opens
the text.  The count is of the characters used. -/
def escape (start position : Nat) : List Char → Except Problem (Char × Nat)
  | [] => .error ⟨"Unterminated string starting at", start⟩
  | 'u' :: rest => do
      let (character, used) ← unitEscape (position + 1) rest
      return (character, used + 1)
  | letter :: _ =>
      match letterEscape? letter with
      | some character => .ok (character, 1)
      | none => .error ⟨"Invalid \\escape", position⟩

/-- Read a text up to its closing quote.  `start` is the position of the opening quote and
`position` that of the next character; the count is of the characters used. -/
def textBody (start position : Nat) : List Char → Except Problem (List Char × Nat)
  | [] => .error ⟨"Unterminated string starting at", start⟩
  | character :: rest =>
      if character = '\"' then .ok ([], 1)
      else if character = '\\' then do
        let (escaped, used) ← escape start position rest
        let (body, count) ← textBody start (position + 1 + used) (rest.drop used)
        return (escaped :: body, 1 + used + count)
      else if character.toNat < 32 then .error ⟨"Invalid control character at", position⟩
      else do
        let (body, count) ← textBody start (position + 1) rest
        return (character :: body, 1 + count)
termination_by text => text.length
decreasing_by all_goals (simp [List.length_drop]; try omega)

def words : List (String × Json) := [
  ("null", .null), ("true", .bool true), ("false", .bool false), ("NaN", .number .notANumber),
  ("Infinity", .number (.infinite false)), ("-Infinity", .number (.infinite true))]

/-- The word with which a text begins, and its length. -/
def wordToken? (text : List Char) : Option (Token × Nat) :=
  (words.find? fun entry => entry.1.toList.isPrefixOf text).map
    fun entry => (.scalar entry.2, entry.1.length)

/-- The value of decimal digits. -/
def ofDigits (digits : List Char) : Nat :=
  digits.foldl (fun value digit => value * 10 + (digit.toNat - '0'.toNat)) 0

theorem ofDigits_decimal (value : Nat) : ofDigits (Number.decimal value) = value := by
  have reads := Nat.ofDigitChars_ten_toDigits (n := value)
  unfold Nat.ofDigitChars at reads
  simpa only [ofDigits, Number.decimal, Nat.mul_comm] using reads

/-- The digits before the point of a numeral: a single zero, or a run that does not begin with
one. -/
def wholeDigits (text : List Char) : List Char :=
  match text with
  | '0' :: _ => ['0']
  | _ => text.takeWhile Char.isDigit

/-- The digits after the point, if there are any. -/
def fractionDigits : List Char → List Char
  | '.' :: rest => rest.takeWhile Char.isDigit
  | _ => []

/-- The exponent of a numeral and its length, both zero if there is none. -/
def exponentPart : List Char → Int × Nat
  | mark :: rest =>
      if mark = 'e' || mark = 'E' then
        let (negative, signed) :=
          match rest with
          | '-' :: _ => (true, 1)
          | '+' :: _ => (false, 1)
          | _ => (false, 0)
        let digits := (rest.drop signed).takeWhile Char.isDigit
        if digits.isEmpty then (0, 0)
        else
          let magnitude : Int := ofDigits digits
          (if negative then -magnitude else magnitude, 1 + signed + digits.length)
      else (0, 0)
  | [] => (0, 0)

/-- The numeral with which a text without a sign begins, and its length. -/
def unsignedToken? (negative : Bool) (text : List Char) : Option (Token × Nat) :=
  let whole := wholeDigits text
  if whole.isEmpty then none
  else
    let afterWhole := text.drop whole.length
    let fraction := fractionDigits afterWhole
    let fractionLength := if fraction.isEmpty then 0 else 1 + fraction.length
    let (exponent, exponentLength) := exponentPart (afterWhole.drop fractionLength)
    if fractionLength = 0 && exponentLength = 0 then
      if Number.digitLimit < whole.length then some (.longInteger whole.length, whole.length)
      else
        let magnitude : Int := ofDigits whole
        some (.scalar (.integer (if negative then -magnitude else magnitude)), whole.length)
    else
      let digits := (whole ++ fraction).dropWhile (· == '0')
      let value :=
        Binary64.ofDecimal negative (ofDigits digits) digits.length (exponent - fraction.length)
      some (.scalar (.number value), whole.length + fractionLength + exponentLength)

/-- The numeral with which a text begins, and its length. -/
def numeralToken? : List Char → Option (Token × Nat)
  | '-' :: rest => (unsignedToken? true rest).map fun (token, length) => (token, length + 1)
  | digits => unsignedToken? false digits

/-- The token that begins with a character at `position`, and the number of characters it takes
after that one. -/
def tokenAt (position : Nat) (character : Char) (rest : List Char) : Token × Nat :=
  match character with
  | '\x7b' => (.openObject, 0)
  | '\x7d' => (.closeObject, 0)
  | '[' => (.openArray, 0)
  | ']' => (.closeArray, 0)
  | ',' => (.comma, 0)
  | ':' => (.colon, 0)
  | '\"' =>
      match textBody position (position + 1) rest with
      | .ok (body, count) => (.quotedText (String.ofList body), count)
      | .error problem => (.brokenText problem, rest.length)
  | _ =>
      match (wordToken? (character :: rest)).orElse fun _ => numeralToken? (character :: rest) with
      | some (token, length) => (token, length - 1)
      | none => (.unknown, rest.length)

/-- The tokens of a text whose first character is at `position`, each with its position.  Nothing
follows a token that cannot be read. -/
def tokens (position : Nat) : List Char → List (Nat × Token)
  | [] => []
  | character :: rest =>
      if isSpace character then tokens (position + 1) rest
      else
        let (token, count) := tokenAt position character rest
        (position, token) :: tokens (position + 1 + count) (rest.drop count)
termination_by text => text.length
decreasing_by all_goals (simp [List.length_drop]; try omega)

end Json

end Typeloom
