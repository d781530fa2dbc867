import Typeloom.Unicode.LowerCase

/-!
# Modes of operation

What a run does with the schemas it loads.  On the command line a mode may be abbreviated to
three or more letters of its name.
-/

namespace Typeloom

/-- What a run does. -/
inductive Mode where
  /-- Write the generated code. -/
  | code
  /-- Show the signatures of the generated classes. -/
  | signature
  /-- Show the documents that were loaded. -/
  | forest
  /-- Generate the code without writing it. -/
  | dryrun
  /-- Write the generated code into an archive. -/
  | zip
  /-- Show the content models and their transition graphs. -/
  | gbind
deriving DecidableEq, Repr, Inhabited

namespace Mode

/-- All modes, in the order in which they are tried. -/
def all : List Mode := [.code, .signature, .forest, .dryrun, .zip, .gbind]

def name : Mode → String
  | .code => "code"
  | .signature => "signature"
  | .forest => "forest"
  | .dryrun => "dryrun"
  | .zip => "zip"
  | .gbind => "gbind"

/-- The mode that a word stands for: the first one whose name begins with the word, which must
have more than two letters. -/
def ofWord? (word : String) : Option Mode :=
  let letters := (Unicode.lower word).toList
  if letters.length ≤ 2 then none
  else all.find? fun mode => letters.isPrefixOf mode.name.toList

end Mode

/-! ## Target languages

The languages in which code is generated. -/

inductive TargetLanguage where
  | python
  | csharp
deriving DecidableEq, Repr, Inhabited

namespace TargetLanguage

def all : List TargetLanguage := [.python, .csharp]

def name : TargetLanguage → String
  | .python => "python"
  | .csharp => "cs"

def ofName? (word : String) : Option TargetLanguage :=
  all.find? (·.name = word)

end TargetLanguage

end Typeloom
