import Typeloom.Json.Token

/-!
# Reading JSON

The tokens of a text drive a machine whose state says what may come next.  The containers that
are still open are a stack of frames.  The first token that does not fit ends the reading; what
is wrong with it depends on the state alone, except that a value may itself be unreadable.
-/

namespace Typeloom

namespace Json

/-- A container that is not closed yet. -/
inductive Frame where
  /-- An array with its items so far, the last one first. -/
  | array (items : List Json)
  /-- An object with its members so far and the key of the current member. -/
  | object (members : Members) (key : String)
deriving Repr, Inhabited

/-- What may come next. -/
inductive Expectation where
  | value (frames : List Frame)
  /-- The first item of an array, or its end. -/
  | firstItem (frames : List Frame)
  /-- The first key of an object, or its end. -/
  | firstKey (frames : List Frame)
  /-- A further key of an object. -/
  | nextKey (members : Members) (frames : List Frame)
  /-- The colon after a key. -/
  | colon (members : Members) (key : String) (frames : List Frame)
  /-- A comma, or the end of the innermost container. -/
  | delimiter (frame : Frame) (frames : List Frame)
  | nothing (value : Json)
deriving Repr, Inhabited

inductive Refusal where
  | malformed (problem : Problem)
  /-- It holds an integer with too many digits. -/
  | longInteger (digits : Nat)
deriving DecidableEq, Repr, Inhabited

/-- What may come after a complete value. -/
def placed (value : Json) : List Frame → Expectation
  | [] => .nothing value
  | .array items :: frames => .delimiter (.array (value :: items)) frames
  | .object members key :: frames => .delimiter (.object (Table.set key value members) key) frames

/-- What may come after the first token of a value. -/
def beginValue (frames : List Frame) (position : Nat) : Token → Except Refusal Expectation
  | .openObject => .ok (.firstKey frames)
  | .openArray => .ok (.firstItem frames)
  | .quotedText content => .ok (placed (.text content) frames)
  | .scalar value => .ok (placed value frames)
  | .brokenText problem => .error (.malformed problem)
  | .longInteger digits => .error (.longInteger digits)
  | _ => .error (.malformed ⟨"Expecting value", position⟩)

/-- What may come after a key. -/
def beginMember (members : Members) (frames : List Frame) (position : Nat) :
    Token → Except Refusal Expectation
  | .quotedText key => .ok (.colon members key frames)
  | .brokenText problem => .error (.malformed problem)
  | _ => .error (.malformed ⟨"Expecting property name enclosed in double quotes", position⟩)

/-- What may come after a token. -/
def Expectation.accept : Expectation → Nat × Token → Except Refusal Expectation
  | .value frames, (position, token) => beginValue frames position token
  | .firstItem frames, (_, .closeArray) => .ok (placed (.array []) frames)
  | .firstItem frames, (position, token) => beginValue (.array [] :: frames) position token
  | .firstKey frames, (_, .closeObject) => .ok (placed (.object []) frames)
  | .firstKey frames, (position, token) => beginMember [] frames position token
  | .nextKey members frames, (position, token) => beginMember members frames position token
  | .colon members key frames, (_, .colon) => .ok (.value (.object members key :: frames))
  | .colon _ _ _, (position, _) => .error (.malformed ⟨"Expecting ':' delimiter", position⟩)
  | .delimiter (.array items) frames, (_, .closeArray) =>
      .ok (placed (.array items.reverse) frames)
  | .delimiter (.array items) frames, (_, .comma) => .ok (.value (.array items :: frames))
  | .delimiter (.object members _) frames, (_, .closeObject) =>
      .ok (placed (.object members) frames)
  | .delimiter (.object members _) frames, (_, .comma) => .ok (.nextKey members frames)
  | .delimiter _ _, (position, _) => .error (.malformed ⟨"Expecting ',' delimiter", position⟩)
  | .nothing _, (position, _) => .error (.malformed ⟨"Extra data", position⟩)

/-- The value that has been read when the text ends at `position`. -/
def Expectation.finish (position : Nat) : Expectation → Except Refusal Json
  | .value _ => .error (.malformed ⟨"Expecting value", position⟩)
  | .firstItem _ => .error (.malformed ⟨"Expecting value", position⟩)
  | .firstKey _ =>
      .error (.malformed ⟨"Expecting property name enclosed in double quotes", position⟩)
  | .nextKey _ _ =>
      .error (.malformed ⟨"Expecting property name enclosed in double quotes", position⟩)
  | .colon _ _ _ => .error (.malformed ⟨"Expecting ':' delimiter", position⟩)
  | .delimiter _ _ => .error (.malformed ⟨"Expecting ',' delimiter", position⟩)
  | .nothing result => .ok result

def readCharacters (text : List Char) : Except Refusal Json := do
  let last ← (tokens 0 text).foldlM Expectation.accept (.value [])
  last.finish text.length

def lineAt (text : List Char) (position : Nat) : Nat :=
  (text.take position).count '\n' + 1

def columnAt (text : List Char) (position : Nat) : Nat :=
  ((text.take position).reverse.takeWhile (· != '\n')).length + 1

/-- A problem with the place where it is in a text. -/
structure Malformation where
  message : String
  line : Nat
  /-- The place in the line, counted from one. -/
  column : Nat
  /-- The number of characters before the place. -/
  position : Nat
deriving DecidableEq, Repr, Inhabited

def Problem.locate (problem : Problem) (text : List Char) : Malformation :=
  ⟨problem.message, lineAt text problem.position, columnAt text problem.position,
    problem.position⟩

def Malformation.describe (malformation : Malformation) : String :=
  malformation.message ++ ": line " ++ toString malformation.line ++ " column " ++
    toString malformation.column ++ " (char " ++ toString malformation.position ++ ")"

inductive ReadError where
  | malformed (malformation : Malformation)
  /-- It holds an integer with too many digits. -/
  | longInteger (digits : Nat)
deriving DecidableEq, Repr, Inhabited

def ReadError.describe : ReadError → String
  | .malformed malformation => malformation.describe
  | .longInteger digits => Number.describeLongInteger digits

/-- The character that marks the byte order at the start of a text. -/
def byteOrderMark : Char := Char.ofNat 0xFEFF

/-- Read the value of a text for which the byte order has been settled, so that a mark in it has no
meaning. -/
def readSettled (text : String) : Except ReadError Json :=
  let characters := text.toList
  match readCharacters characters with
  | .ok value => .ok value
  | .error (.malformed problem) => .error (.malformed (problem.locate characters))
  | .error (.longInteger digits) => .error (.longInteger digits)

/-- Read the value of a text.  A byte order mark at its start is refused. -/
def read (text : String) : Except ReadError Json :=
  if text.toList.head? = some byteOrderMark then
    .error (.malformed (Problem.locate ⟨"Unexpected UTF-8 BOM (decode using utf-8-sig)", 0⟩ []))
  else readSettled text

end Json

end Typeloom
