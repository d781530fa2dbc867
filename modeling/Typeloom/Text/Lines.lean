/-!
# Lines of a text

A line ends at a line feed, a carriage return, the pair of both, or at one of the other
characters that separate lines: vertical tab, form feed, the file, group and record separators,
next line, and the line and paragraph separators.  The end of the text closes the last line only
if something stands in it.
-/

namespace Typeloom

namespace Text

def isLineBreak (character : Char) : Bool :=
  [10, 11, 12, 13, 28, 29, 30, 133, 8232, 8233].contains character.toNat

def consLine (character : Char) : List (List Char) → List (List Char)
  | [] => [[character]]
  | line :: more => (character :: line) :: more

def lines : List Char → List (List Char)
  | [] => []
  | '\r' :: '\n' :: rest => [] :: lines rest
  | character :: rest =>
      if isLineBreak character then [] :: lines rest else consLine character (lines rest)

/-- Every carriage return, alone or before a line feed, becomes a line feed. -/
def unifyLineEnds : List Char → List Char
  | [] => []
  | '\r' :: '\n' :: rest => '\n' :: unifyLineEnds rest
  | '\r' :: rest => '\n' :: unifyLineEnds rest
  | character :: rest => character :: unifyLineEnds rest

theorem unifyLineEnds_of_notMem {text : List Char} (noReturn : '\r' ∉ text) :
    unifyLineEnds text = text := by
  induction text with
  | nil => rfl
  | cons character rest inductionHypothesis =>
      obtain ⟨differs, notInRest⟩ := not_or.mp (mt List.mem_cons.mpr noReturn)
      rw [unifyLineEnds, inductionHypothesis notInRest]
      · exact fun _ same => absurd same.symm differs
      · exact Ne.symm differs

/-- A text with one character put for another. -/
def replaceCharacter (old new : Char) (text : String) : String :=
  String.ofList (text.toList.map fun character => if character = old then new else character)

end Text

end Typeloom
