import Typeloom.Generate.Extension
import Typeloom.Message.Catalog

/-!
# The options of the command line

Every option has a long name, and some have a short one too.  An option either takes a value or is
a switch.  The compiler knows more options when it is run as a program than when it is used for
its options alone.
-/

namespace Typeloom

inductive Setting where
  | directory
  | package
  | language
  | config
  | replacement
  | modulePath
  | moduleName
  | proxy
  | proxyFile
  | noHeader
  | readOnly
  | encoding
  | quiet
  | verbose
  | debug
  /-- An extension, known by the name of its option. -/
  | extension (name : String)
  | mode
  | noNamespace
  | help
  | privateHelp
  | debugInline
  | version
  | fullVersion
deriving DecidableEq, Repr, Inhabited

structure OptionRule where
  setting : Setting
  short : Option Char := none
  long : String
  /-- Whether the option takes a value. -/
  takesValue : Bool := false
  /-- Whether the option is left out of the public help. -/
  isPrivate : Bool := false
  help : String
deriving DecidableEq, Repr, Inhabited

namespace OptionRule

def names (rule : OptionRule) : List String :=
  match rule.short with
  | some letter => ["-" ++ letter.toString, rule.long]
  | none => [rule.long]

end OptionRule

inductive OptionSet where
  | compilation
  /-- Those of a compilation and of the program around it. -/
  | program
deriving DecidableEq, Repr, Inhabited

namespace OptionSet

def compilationRules : List OptionRule := [
  { setting := .directory, short := some 'd', long := "--directory", takesValue := true
    help := "generated files will go into this directory" },
  { setting := .package, short := some 'p', long := "--package", takesValue := true
    help := "specifies the target package" },
  { setting := .language, short := some 'l', long := "--language", takesValue := true
    help := "language of the generated code" },
  { setting := .config, short := some 'c', long := "--config", takesValue := true
    help := "JSON file with generator configuration" },
  { setting := .replacement, long := "--replace", takesValue := true
    help := "rename a generated class, as FROM=TO" },
  { setting := .modulePath, long := "--plugin-path", takesValue := true
    help := "directory to search for plugin modules" },
  { setting := .moduleName, long := "--plugin", takesValue := true
    help := "load and activate a plugin given as module:Class" },
  { setting := .proxy, long := "--http-proxy", takesValue := true
    help := "set HTTP/HTTPS proxy, as [user[:password]@]host[:port]" },
  { setting := .proxyFile, long := "--http-proxy-file", takesValue := true
    help := "read the proxy specification from a file" },
  { setting := .noHeader, long := "--no-header", help := "suppress generation of a file header" },
  { setting := .readOnly, long := "--read-only"
    help := "generated files will be in read-only mode" },
  { setting := .encoding, long := "--encoding", takesValue := true
    help := "character encoding for generated source files" },
  { setting := .quiet, short := some 'q', long := "--quiet", help := "suppress compiler output" },
  { setting := .verbose, short := some 'v', long := "--verbose", help := "be extra verbose" },
  { setting := .debug, long := "--debug", isPrivate := true, help := "run in debug mode" }]

def extensionRule (extension : Extension) : OptionRule :=
  { setting := .extension extension.optionName, long := "--" ++ extension.optionName
    isPrivate := true, help := "" }

def programRules : List OptionRule := [
  { setting := .mode, long := "--mode", takesValue := true, help := "operation mode" },
  { setting := .noNamespace, long := "--no-namespace"
    help := "do not generate namespace declarations" },
  { setting := .help, long := "--help", help := "display this help message" },
  { setting := .privateHelp, long := "--private-help", isPrivate := true
    help := "display this help message with private options" },
  { setting := .debugInline, long := "--debug-inline", isPrivate := true
    help := "run on the calling thread" },
  { setting := .version, long := "--version", help := "display version information" },
  { setting := .fullVersion, long := "--full-version"
    help := "display full version information" }]

def ownRules : OptionSet → List OptionRule
  | .compilation => compilationRules
  | .program => compilationRules ++ programRules

def rules (options : OptionSet) (extensions : List Extension) : List OptionRule :=
  options.ownRules ++ extensions.map extensionRule

end OptionSet

/-! ## The usage screen

The usage screen lists the options and what they are for in two columns. -/

namespace Usage

/-- A text followed by as many spaces as it takes to fill a width. -/
def padded (width : Nat) (text : String) : String :=
  text ++ String.ofList (List.replicate (width - text.length) ' ')

/-- Rows in two columns, the first of which is as wide as its widest text and two more. -/
def columns (indent : String) (rows : List (String × String)) : List String :=
  let width := (rows.map fun row => row.1.length).foldl max 0 + 2
  rows.map fun row => indent ++ padded width row.1 ++ row.2

def rowsOf (rules : List OptionRule) : List (String × String) :=
  rules.map fun rule => (", ".intercalate rule.names, rule.help)

def publicBlock (options : OptionSet) : String :=
  let rules := options.ownRules.filter fun rule => !rule.isPrivate
  "\n".intercalate ("Options:" :: columns "  " (rowsOf rules))

def privateBlock (options : OptionSet) : String :=
  "\n".intercalate (columns "" (rowsOf (options.ownRules.filter OptionRule.isPrivate)))

/-- The lines about extensions, if there are any. -/
def extensionBlocks (extensions : List Extension) : List String :=
  if extensions.isEmpty then []
  else Message.extensionUsage.text :: extensions.map Extension.usage

/-- The usage screen in blocks. -/
def blocks (options : OptionSet) (extensions : List Extension) (withPrivate : Bool) :
    List String :=
  [Message.publicUsage.text, publicBlock options] ++
    (if withPrivate then [Message.privateUsage.text, privateBlock options] else []) ++
    extensionBlocks extensions

end Usage

end Typeloom
