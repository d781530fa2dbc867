import Typeloom.Files.FileSystem
import Typeloom.Output.Writer
import Typeloom.Run.Compilation
import Typeloom.Uri.Source

/-!
# Publication

What a compilation leads to is published: a text on the standard output, code as files below the
target directory or in an archive.  The publication cannot be cancelled.  If the system refuses
to write, that is reported as an error.
-/

namespace Typeloom

/-! ## The command line in file headers

The header of a generated file shows the command line it stems from.  Files are shown by their
names alone, so that the header does not depend on where the compiler was started. -/

namespace CommandLine

def programName : String := "json-schema-compiler"

def shownArgument (system : FileSystem) (argument : String) : Except SystemError String := do
  if Text.beginsWith argument "-" || Uri.isUri argument then return argument
  let path := Path.parse argument
  return if ← system.isFile path then path.name else argument

/-- The command line as it is shown. -/
def shown (system : FileSystem) (arguments : List String) : Except SystemError String := do
  let words ← arguments.mapM (shownArgument system)
  return " ".intercalate (programName :: words)

end CommandLine

/-! ## Standard output

The texts that a run is asked for go to its standard output.  An archive goes there too if the
output has a side that takes bytes.  A broken output takes nothing. -/

inductive OutputKind where
  | text
  /-- Texts and bytes. -/
  | binary
  | broken
deriving DecidableEq, Repr, Inhabited

/-- A standard output with what has been written to it. -/
structure StandardOutput where
  kind : OutputKind := .text
  text : String := ""
  binary : FileContent := .bytes []
deriving DecidableEq, Repr, Inhabited

namespace StandardOutput

/-- Write a text.  An empty text can be written to every output. -/
def write (output : StandardOutput) (text : String) : Except SystemError StandardOutput :=
  if output.kind = .broken && !text.isEmpty then .error .brokenPipe
  else .ok { output with text := output.text ++ text }

def takesArchive (output : StandardOutput) : Bool :=
  output.kind = .binary

end StandardOutput

/-! ## Publishing -/

inductive Exit where
  | success
  /-- Something failed, or only a piece of information was asked for. -/
  | failure
deriving DecidableEq, Repr, Inhabited

/-- What a run works with and changes. -/
structure Site where
  channel : Channel := {}
  system : FileSystem
  output : StandardOutput := {}
deriving Inhabited, Repr

abbrev Publishing (α : Type) := ExceptT Fault (StateM Site) α

namespace Publishing

/-- The value of a computation that cannot publish, or its fault. -/
def ofExcept {α : Type} : Except Fault α → Publishing α
  | .ok value => pure value
  | .error fault => throw fault

def filing {α : Type} (action : Filing α) : Publishing α := do
  let site ← get
  let (result, system) := action.run site.system
  set { site with system }
  ofExcept result

/-- Write a text to the standard output. -/
def showText (text : String) : Publishing Unit := do
  let site ← get
  let output ← ofExcept ((site.output.write text).mapError .system)
  set { site with output }

/-- Write pieces of text to the standard output, up to the first one that does not exist. -/
def showPieces (pieces : List (Except Fault String)) : Publishing Unit :=
  pieces.forM fun piece => do showText (← ofExcept piece)

def header (options : Options) : Publishing String := do
  let shown := CommandLine.shown (← get).system options.arguments
  return Message.fileHeader.text [Message.version.text, ← ofExcept (shown.mapError .system)]

/-- The layer that adds the header, unless there is to be none. -/
def headerLayers (options : Options) : Publishing (List Layer) := do
  if options.noHeader then return []
  return [.header (← header options)]

/-- The layer that announces every file, unless the listener is to be left alone. -/
def progressLayers (options : Options) (fileCount : Nat) : List Layer :=
  if options.quiet then [] else [.progress fileCount 0]

def plannedFiles (options : Options) (code : GeneratedCode) : List PlannedFile :=
  code.files.map fun file =>
    { package := file.package, fileName := file.fileName
      text := code.render options.generation file }

/-- Write the files of generated code with a writer, and say how that ended and what became of the
writer. -/
def deliver (options : Options) (code : GeneratedCode) (core : Core) :
    Publishing (Except Fault Unit × Core) := do
  let layers := (← headerLayers options) ++ progressLayers options code.files.length
  let site ← get
  let desk : Desk :=
    { system := site.system, channel := site.channel
      writer := { core, layers, encoding := options.encoding } }
  let (result, desk) := (Writing.deliver (plannedFiles options code)).run desk
  set { site with system := desk.system, channel := desk.channel }
  return (result, desk.writer.core)

def archiveContent : Core → FileContent
  | .archive entries => .archive entries
  | .directory _ _ => .bytes []

def writeDirectory (options : Options) (code : GeneratedCode) : Publishing Unit := do
  let (result, _) ← deliver options code (.directory options.target options.readOnly)
  ofExcept result

/-- Write the files of generated code into an archive on the standard output. -/
def writeArchiveToOutput (options : Options) (code : GeneratedCode) : Publishing Unit := do
  if !(← get).output.takesArchive then throw (.system .textOnly)
  let (result, core) ← deliver options code (.archive [])
  modify fun site =>
    { site with output := { site.output with binary := archiveContent core } }
  ofExcept result

/-- Write the files of generated code into an archive in the place of the target directory. -/
def writeArchiveFile (options : Options) (code : GeneratedCode) : Publishing Unit := do
  filing (Filing.writeFile options.target (.archive []))
  let (result, core) ← deliver options code (.archive [])
  filing (Filing.writeFile options.target (archiveContent core))
  ofExcept result

/-- Write the files of generated code to where the mode asks for them. -/
def writeCode (options : Options) (code : GeneratedCode) : Publishing Unit :=
  match options.mode with
  | .dryrun => pure ()
  | .zip =>
      if options.target.isCurrent then writeArchiveToOutput options code
      else writeArchiveFile options code
  | _ => writeDirectory options code

def markerName (hadWarning : Bool) : String :=
  if hadWarning then "hadWarning" else "noWarning"

/-- Write the file that tells whether there were warnings, if it is asked for. -/
def writeMarker (options : Options) : Publishing Unit := do
  if options.debug then
    let name := markerName (← get).channel.hadWarning
    filing (Filing.writeFile (options.target.join (Path.parse name)) (.bytes []))

/-- Publish, and report if the system refuses to write. -/
def reportingErrors (action : Publishing Unit) : Publishing Exit :=
  tryCatch (do action; return .success) fun fault =>
    match fault with
    | .system error => do
        modify fun site =>
          { site with channel := site.channel.notify .error (.ofCause error.cause .error none) }
        return .failure
    | fault => throw fault

/-- Publish what a compilation leads to. -/
def publish (options : Options) : Product → Publishing Exit
  | .nothing => return .failure
  | .text pieces => reportingErrors (showPieces pieces)
  | .code code =>
      reportingErrors do
        writeCode options code
        writeMarker options

end Publishing

end Typeloom
