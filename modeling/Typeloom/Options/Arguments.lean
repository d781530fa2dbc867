import Typeloom.Options.Grammar
import Typeloom.Options.Mode
import Typeloom.Message.Catalog
import Typeloom.Text.Pieces
import Typeloom.Text.Quoted
import Typeloom.Text.Similarity

/-!
# Reading the command line

Arguments are read from left to right.  What begins with a dash is an option, or several short
options in one, and everything else is a source.  The value of an option follows behind an equals
sign, directly behind a short name, or as the next argument.  Two dashes end the options.
-/

namespace Typeloom

inductive ArgumentProblem where
  /-- There is no such option, but perhaps there are some with similar names. -/
  | noSuchOption (name : String) (similar : List String)
  | missingValue (name : String)
  | unwantedValue (name : String)
  /-- An option does not admit its value. -/
  | badLanguage (value : String)
  | badMode (value : String)
deriving DecidableEq, Repr, Inhabited

namespace ArgumentProblem

/-- What follows if there are options with similar names. -/
def suggestion : List String → String
  | [] => ""
  | [name] => " Did you mean " ++ Text.quoted name ++ "?"
  | names => " (Did you mean one of: " ++ ", ".intercalate (names.map Text.quoted) ++ "?)"

def describe : ArgumentProblem → String
  | .noSuchOption name similar =>
      "No such option " ++ Text.quoted name ++ "." ++ suggestion similar
  | .missingValue name => "Option " ++ Text.quoted name ++ " requires an argument."
  | .unwantedValue name => "Option " ++ Text.quoted name ++ " does not take a value."
  | .badLanguage value =>
      "Invalid value for '-l' / '--language': " ++ Text.quoted value ++ " is not one of " ++
        ", ".intercalate (TargetLanguage.all.map fun language => Text.quoted language.name) ++ "."
  | .badMode value =>
      "Invalid value for '--mode': " ++ Message.unrecognizedMode.text [value]

end ArgumentProblem

/-- An option as it is given, with its value if it takes one. -/
structure GivenOption where
  setting : Setting
  value : String := ""
deriving DecidableEq, Repr, Inhabited

structure Arguments where
  options : List GivenOption := []
  sources : List String := []
deriving DecidableEq, Repr, Inhabited

/-- An option that waits for its value: what it sets, and its name as it is given. -/
structure WaitingOption where
  setting : Setting
  name : String
deriving DecidableEq, Repr, Inhabited

namespace Arguments

def isOption (argument : String) : Bool :=
  Text.beginsWith argument "-" && 1 < argument.length

def longRule? (rules : List OptionRule) (name : String) : Option OptionRule :=
  rules.find? (·.long = name)

def shortRule? (rules : List OptionRule) (letter : Char) : Option OptionRule :=
  rules.find? (·.short = some letter)

def readLong (rule : OptionRule) (name : String) (value? : Option String) :
    Except ArgumentProblem (List GivenOption × Option WaitingOption) :=
  match rule.takesValue, value? with
  | true, some value => .ok ([⟨rule.setting, value⟩], none)
  | true, none => .ok ([], some ⟨rule.setting, name⟩)
  | false, some _ => .error (.unwantedValue name)
  | false, none => .ok ([⟨rule.setting, ""⟩], none)

/-- Read short options, the last of which may be followed by its value. -/
def readShort (rules : List OptionRule) :
    List Char → Except ArgumentProblem (List GivenOption × Option WaitingOption)
  | [] => .ok ([], none)
  | letter :: rest => do
      let name := "-" ++ letter.toString
      match shortRule? rules letter with
      | none => throw (.noSuchOption name [])
      | some rule =>
          if rule.takesValue then
            if rest.isEmpty then return ([], some ⟨rule.setting, name⟩)
            else return ([⟨rule.setting, String.ofList rest⟩], none)
          else do
            let (given, waiting) ← readShort rules rest
            return (⟨rule.setting, ""⟩ :: given, waiting)

/-- Read an argument with one or more options. -/
def readOption (rules : List OptionRule) (argument : String) :
    Except ArgumentProblem (List GivenOption × Option WaitingOption) :=
  let name := Text.before '=' argument
  match longRule? rules name with
  | some rule => readLong rule name (Text.after? '=' argument)
  | none =>
      if Text.beginsWith argument "--" then
        .error (.noSuchOption name (Text.closestNames name (rules.map OptionRule.long)))
      else readShort rules (argument.toList.drop 1)

def read (rules : List OptionRule) : List String → Except ArgumentProblem Arguments
  | [] => .ok {}
  | argument :: rest => do
      if argument = "--" then return { sources := rest }
      if !isOption argument then
        let others ← read rules rest
        return { others with sources := argument :: others.sources }
      let (given, waiting?) ← readOption rules argument
      match waiting?, rest with
      | none, rest => do
          let others ← read rules rest
          return { others with options := given ++ others.options }
      | some waiting, [] => throw (.missingValue waiting.name)
      | some waiting, value :: rest => do
          let others ← read rules rest
          return { others with options := given ++ ⟨waiting.setting, value⟩ :: others.options }

def gives (arguments : Arguments) (setting : Setting) : Bool :=
  arguments.options.any (·.setting = setting)

def valuesOf (arguments : Arguments) (setting : Setting) : List String :=
  (arguments.options.filter (·.setting = setting)).map GivenOption.value

/-- The last value of an option, if it is given. -/
def value? (arguments : Arguments) (setting : Setting) : Option String :=
  (arguments.valuesOf setting).getLast?

def language (arguments : Arguments) : Except ArgumentProblem TargetLanguage :=
  match arguments.value? .language with
  | none => .ok .python
  | some value =>
      match TargetLanguage.ofName? value with
      | some language => .ok language
      | none => .error (.badLanguage value)

def mode (arguments : Arguments) : Except ArgumentProblem Mode :=
  match arguments.value? .mode with
  | none => .ok .code
  | some value =>
      match Mode.ofWord? value with
      | some mode => .ok mode
      | none => .error (.badMode value)

/-- The target language and the mode.  If neither is admitted, the one that is given first
counts. -/
def languageAndMode (arguments : Arguments) : Except ArgumentProblem (TargetLanguage × Mode) := do
  let first := arguments.options.find? fun given =>
    given.setting = .language || given.setting = .mode
  if (first.map GivenOption.setting) = some .mode then
    let mode ← arguments.mode
    return (← arguments.language, mode)
  else
    let language ← arguments.language
    return (language, ← arguments.mode)

end Arguments

end Typeloom
