import Typeloom.Fault

/-!
# The message catalog

The texts that the compiler shows to its users.  A message is a list of pieces, some of which
stand for arguments, the version of the compiler or the name of its build.
-/

namespace Typeloom

inductive Message where
  | buildId
  | version
  | fullVersion
  | parsingSchema
  | compilingSchema
  | parseFailed
  | generationFailed
  | stackOverflow
  | warning
  | defaultPackage
  | noSources
  | noDirectory
  | invalidReplacement
  | invalidConfig
  | invalidProxy
  | pluginNotLoaded
  | unrecognizedMode
  | publicUsage
  | privateUsage
  | extensionUsage
  | fileHeader
  | noBinaryOutput
deriving DecidableEq, Repr, Inhabited

namespace Message

inductive Piece where
  | fixed (text : String)
  | argument (index : Nat)
deriving DecidableEq, Repr, Inhabited

def versionNumber : String := "1.0.0"

def buildName : String := "json-schema-compiler-" ++ versionNumber

/-- All messages, with the keys they are known by. -/
def catalog : List (String × Message) := [
  ("BUILD_ID", .buildId), ("VERSION", .version), ("FULLVERSION", .fullVersion),
  ("PARSING_SCHEMA", .parsingSchema), ("COMPILING_SCHEMA", .compilingSchema),
  ("PARSE_FAILED", .parseFailed), ("FAILED_TO_GENERATE_CODE", .generationFailed),
  ("STACK_OVERFLOW", .stackOverflow), ("WARNING_MSG", .warning),
  ("DEFAULT_PACKAGE_WARNING", .defaultPackage), ("NO_SCHEMA_FILES", .noSources),
  ("NON_EXISTENT_DIR", .noDirectory), ("INVALID_REPLACEMENT", .invalidReplacement),
  ("INVALID_CONFIG", .invalidConfig), ("INVALID_PROXY", .invalidProxy),
  ("PLUGIN_LOAD_FAILED", .pluginNotLoaded), ("UNRECOGNIZED_MODE", .unrecognizedMode),
  ("DRIVER_PUBLIC_USAGE", .publicUsage), ("DRIVER_PRIVATE_USAGE", .privateUsage),
  ("ADDON_USAGE", .extensionUsage), ("FILE_PROLOG_COMMENT", .fileHeader),
  ("NO_BINARY_STDOUT", .noBinaryOutput)]

def pieces : Message → List Piece
  | .buildId => [.fixed buildName]
  | .version => [.fixed ("json-schema-compiler " ++ versionNumber)]
  | .fullVersion =>
      [.fixed ("json-schema-compiler full version \"" ++ versionNumber ++ "-" ++ buildName ++ "\"")]
  | .parsingSchema => [.fixed "parsing a schema..."]
  | .compilingSchema => [.fixed "compiling a schema..."]
  | .parseFailed => [.fixed "failed to parse the schema."]
  | .generationFailed => [.fixed "failed to generate code."]
  | .stackOverflow => [.fixed
      ("Stack overflow. Either you are compiling a large schema that requires more resources, " ++
        "or the compiler has a bug. Re-run with --verbose to see the full trace, or with a larger " ++
        "recursion budget.")]
  | .warning => [.fixed "[WARNING] ", .argument 0]
  | .defaultPackage => [.fixed
      ("Generating code into the default package is not recommended; generated modules may " ++
        "clash with other top-level names.")]
  | .noSources => [.fixed "grammar is not specified"]
  | .noDirectory => [.argument 0, .fixed ": the target directory does not exist"]
  | .invalidReplacement =>
      [.fixed "invalid class name replacement '", .argument 0, .fixed "', expected FROM=TO"]
  | .invalidConfig =>
      [.fixed "unable to read the generator configuration ", .argument 0, .fixed ": ", .argument 1]
  | .invalidProxy =>
      [.fixed "invalid proxy specification '", .argument 0,
        .fixed "', expected [user[:password]@]host[:port]"]
  | .pluginNotLoaded =>
      [.fixed "unable to load plugin ", .argument 0, .fixed ": ", .argument 1]
  | .unrecognizedMode => [.fixed "unrecognized mode ", .argument 0]
  | .publicUsage => [.fixed "Usage: json-schema-compiler [-options ...] <schema file/URL/dir> ..."]
  | .privateUsage => [.fixed "Private options:"]
  | .extensionUsage => [.fixed "Extensions:"]
  | .fileHeader =>
      [.fixed "This file was generated by ", .argument 0,
        .fixed ("\nAny modifications to this file will be lost upon recompilation of the source " ++
          "schema.\nCommand line: "),
        .argument 1]
  | .noBinaryOutput => [.fixed "cannot write a zip archive to a text-only output stream"]

/-- A piece with its argument put in, if there is one of that number. -/
def Piece.fill? (arguments : List String) : Piece → Option String
  | .fixed text => some text
  | .argument index => arguments[index]?

/-- A message with its arguments, if none is missing. -/
def format? (message : Message) (arguments : List String) : Option String :=
  (message.pieces.mapM (Piece.fill? arguments)).map String.join

/-- A message with its arguments.  A missing argument is left out. -/
def text (message : Message) (arguments : List String := []) : String :=
  String.join (message.pieces.map fun piece => (piece.fill? arguments).getD "")

def ofKey (key : String) (arguments : List String) : Except Fault String :=
  match catalog.lookup key with
  | none => .error .missingKey
  | some message =>
      match message.format? arguments with
      | none => .error .missingItem
      | some text => .ok text

end Message

end Typeloom
