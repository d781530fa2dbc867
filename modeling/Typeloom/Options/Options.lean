import Typeloom.Encoding.Document
import Typeloom.Files.FileSystem
import Typeloom.Generate.Code
import Typeloom.Json.Writer
import Typeloom.Options.Arguments
import Typeloom.Options.Proxy
import Typeloom.Options.Grammar
import Typeloom.Uri.Source

/-!
# Options

The options of one compilation.  A command line leads to options, or to a message about what is
wrong with it, or only asks for help.
-/

namespace Typeloom

structure Options where
  arguments : List String
  sources : List String
  /-- The directory that the files go into, or the archive. -/
  target : Path
  package : Option String
  language : TargetLanguage
  quiet : Bool
  verbose : Bool
  /-- Whether a file tells whether there were warnings. -/
  debug : Bool
  noHeader : Bool
  readOnly : Bool
  encoding : String
  config : Config
  replacements : Replacements
  modulePath : List Path
  /-- The extensions to load, as modules and classes. -/
  moduleNames : List String
  proxy : Option Proxy
  extensions : List Extension
  mode : Mode
  noNamespace : Bool

inductive OptionsOutcome where
  | options (options : Options)
  /-- A message about what is wrong. -/
  | problem (message : String)
  /-- The help that is asked for, in blocks. -/
  | help (blocks : List String)

namespace Options

/-- The extensions that come with the compiler. -/
def standardExtensions : List Extension :=
  [Extension.frozenClasses]

/-- The fault that a configuration or a proxy cannot be read for a reason. -/
def readProblem (name : String) (reason : String) : Fault :=
  .badCommandLine (Message.invalidConfig.text [name, reason])

def readConfig (system : FileSystem) (name : String) : Except Fault Config :=
  match Config.ofFile system name with
  | .ok config => .ok config
  | .error (.system error) => .error (readProblem name error.describe)
  | .error (.invalid reason) => .error (readProblem name reason)
  | .error (.malformed malformation) => .error (readProblem name malformation.describe)
  | .error (.undecodable reason) => .error (readProblem name reason)
  | .error fault => .error fault

def parseReplacement (rule : String) : Except Fault (String × String) :=
  let name := Text.before '=' rule
  let replacement := (Text.after? '=' rule).getD ""
  if name.isEmpty || replacement.isEmpty then
    .error (.badCommandLine (Message.invalidReplacement.text [rule]))
  else .ok (name, replacement)

/-- Put the generated name that a rule asks for. -/
def addReplacement (replacements : Replacements) (rule : String) : Except Fault Replacements := do
  let (name, replacement) ← parseReplacement rule
  return replacements.set (.text name) (.text replacement)

def readProxyFile (system : FileSystem) (name : String) : Except Fault String := do
  let path := Path.parse name
  if path.isUnusable then throw (.invalid "embedded null byte")
  match system.read path with
  | .error error => throw (readProblem name error.describe)
  | .ok bytes => do
      let text ← Encoding.utf8Text bytes
      return String.ofList (Unicode.trim (Text.unifyLineEnds text.toList))

/-- The specification of the proxy, if there is one.  That in a file wins. -/
def proxySpecification (system : FileSystem) (arguments : Arguments) :
    Except Fault (Option String) :=
  match arguments.value? .proxyFile with
  | some name => (readProxyFile system name).map some
  | none => .ok (arguments.value? .proxy)

def readProxy (system : FileSystem) (arguments : Arguments) : Except Fault (Option Proxy) := do
  match ← proxySpecification system arguments with
  | none => return none
  | some specification =>
      match Proxy.parse specification with
      | .ok proxy => return some proxy
      | .error _ => throw (.badCommandLine (Message.invalidProxy.text [specification]))

/-- The documents that a source stands for: a directory stands for all documents in it. -/
def expandSource (system : FileSystem) (source : String) : Except Fault (List String) := do
  let path := Path.parse source
  if Uri.isUri source then return [source]
  if ← (system.isDirectory path).mapError .system then
    return (system.membersEnding path ".json").map Path.write
  return [source]

def ofArguments (options : OptionSet) (system : FileSystem) (words : List String)
    (arguments : Arguments) (language : TargetLanguage) (mode : Mode) : Except Fault Options := do
  let target := Path.parse ((arguments.value? .directory).getD ".")
  let config ←
    match arguments.value? .config with
    | some name => readConfig system name
    | none => pure {}
  let configured ← Replacements.ofJson config.classNameReplacements
  let replacements ← (arguments.valuesOf .replacement).foldlM addReplacement configured
  let proxy ← readProxy system arguments
  let sources ← arguments.sources.mapM (expandSource system)
  let sources := sources.flatten
  if sources.isEmpty then throw (.badCommandLine Message.noSources.text)
  if options = .program && mode = .code then
    if !(← (system.isDirectory target).mapError .system) then
      throw (.badCommandLine (Message.noDirectory.text [target.write]))
  return {
    arguments := words
    sources
    target
    package := arguments.value? .package
    language
    quiet := arguments.gives .quiet
    verbose := arguments.gives .verbose
    debug := arguments.gives .debug
    noHeader := arguments.gives .noHeader
    readOnly := arguments.gives .readOnly
    encoding := (arguments.value? .encoding).getD "utf-8"
    config
    replacements
    modulePath := (arguments.valuesOf .modulePath).map Path.parse
    moduleNames := arguments.valuesOf .moduleName
    proxy
    extensions := standardExtensions.filter fun extension =>
      arguments.gives (.extension extension.optionName)
    mode
    noNamespace := arguments.gives .noNamespace }

/-- What arguments lead to that could be read. -/
def apply (options : OptionSet) (system : FileSystem) (words : List String)
    (arguments : Arguments) (language : TargetLanguage) (mode : Mode) :
    Except Fault OptionsOutcome :=
  if arguments.gives .help || arguments.gives .privateHelp then
    .ok (.help (Usage.blocks options standardExtensions (arguments.gives .privateHelp)))
  else
    match ofArguments options system words arguments language mode with
    | .ok result => .ok (.options result)
    | .error (.badCommandLine reason) => .ok (.problem reason)
    | .error fault => .error fault

def parse (options : OptionSet) (system : FileSystem) (words : List String) :
    Except Fault OptionsOutcome :=
  let reading : Except ArgumentProblem (Arguments × TargetLanguage × Mode) := do
    let arguments ← Arguments.read (options.rules standardExtensions) words
    return (arguments, ← arguments.languageAndMode)
  match reading with
  | .error problem => .ok (.problem problem.describe)
  | .ok (arguments, language, mode) => apply options system words arguments language mode

def generation (options : Options) : GenerationSettings :=
  { language := options.language, config := options.config
    replacements := options.replacements }

/-- A generated name that is put for a name, as a member of an object. -/
def replacementMember (pair : Json × Json) : String × Json :=
  (Json.keyText pair.1, pair.2)

def summary (options : Options) : Json :=
  .object [
    ("sources", .array (options.sources.map .text)),
    ("target_dir", .text options.target.write),
    ("default_package", (options.package.map Json.text).getD .null),
    ("target_language", .text options.language.name),
    ("class_name_replacer", .object (options.replacements.map replacementMember)),
    ("plugins", .array (options.extensions.map fun extension => .text extension.optionName)),
    ("config", options.config.toJson)]

def dump (options : Options) : String :=
  Json.writeIndented options.summary

end Options

end Typeloom
