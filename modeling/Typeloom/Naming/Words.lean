/-!
# Words of a name

A name of any spelling is cut into words before it is written in another one.  A word is a run of
ASCII digits, a run of small letters with at most one capital before it, or a run of capitals
that stops short of a capital which begins a small-letter word.  Everything else separates words.
-/

namespace Typeloom

namespace Naming

def isNameCharacter (character : Char) : Bool :=
  character.isAlphanum

/-- The length of the longest start of a text whose characters satisfy `test`. -/
def runLength (test : Char → Bool) (text : List Char) : Nat :=
  (text.takeWhile test).length

/-- The length of the word that begins with the first character of a text, which is an ASCII
letter or digit. -/
def wordLength (text : List Char) : Nat :=
  let capitals := runLength Char.isUpper text
  let afterCapitals := text.drop capitals
  let smalls := runLength Char.isLower afterCapitals
  if capitals = 0 then
    if smalls = 0 then runLength Char.isDigit text else smalls
  else if smalls = 0 then capitals
  else if capitals = 1 then capitals + smalls
  else capitals - 1

def words : List Char → List (List Char)
  | [] => []
  | character :: rest =>
      if isNameCharacter character then
        let tail := wordLength (character :: rest) - 1
        (character :: rest.take tail) :: words (rest.drop tail)
      else words rest
termination_by text => text.length
decreasing_by all_goals (simp [List.length_drop]; try omega)

def lowerWord (word : List Char) : List Char :=
  word.map Char.toLower

def upperWord (word : List Char) : List Char :=
  word.map Char.toUpper

def capitalizedWord : List Char → List Char
  | [] => []
  | first :: rest => first.toUpper :: lowerWord rest

def joinWords (parts : List (List Char)) : List Char :=
  ['_'].intercalate parts

/-- The spelling of type names: every word capitalized, nothing between the words. -/
def pascalCase (name : String) : String :=
  String.ofList ((words name.toList).map capitalizedWord).flatten

/-- The spelling of module names: small letters, an underscore between two words. -/
def snakeCase (name : String) : String :=
  String.ofList (joinWords ((words name.toList).map lowerWord))

/-- The spelling of constants: capitals, an underscore between two words. -/
def constantCase (name : String) : String :=
  String.ofList (joinWords ((words name.toList).map upperWord))

end Naming

end Typeloom
