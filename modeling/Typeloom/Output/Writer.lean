import Typeloom.Encoding.Charset
import Typeloom.Files.Change
import Typeloom.Generate.Outline
import Typeloom.Report.Channel
import Typeloom.Text.Lines
import Typeloom.Text.Pieces
import Typeloom.Unicode.Blank

/-!
# Writers

A writer takes generated files one after the other, and puts them below a directory or into an
archive.  Layers around it add headers to source files or tell the listener about every file
before it is opened.  What could be encoded of a file is kept even if the rest of it cannot be
encoded.
-/

namespace Typeloom

/-! ## File headers

A generated file may begin with a header: a comment that says where the file comes from, and an
empty line behind it. -/

namespace Header

/-- What stands in front of every line of a comment in a file of the given name. -/
def commentMark (fileName : String) : String :=
  if Text.endsWith fileName ".py" then "# " else "// "

/-- A line of a comment, without blanks at its end. -/
def commentLine (mark : String) (text : List Char) : String :=
  String.ofList (Unicode.trimEnd (mark.toList ++ text)) ++ "\n"

/-- The header of a file in the pieces in which it is written: its lines and the empty line. -/
def pieces (header fileName : String) : List String :=
  (Text.lines header.toList).map (commentLine (commentMark fileName)) ++ ["\n"]

end Header

/-! ## Writing files -/

inductive Core where
  /-- Below a directory, with every file replaced as a whole. -/
  | directory (target : Path) (readOnly : Bool)
  /-- Into an archive with the entries added so far, in order. -/
  | archive (entries : List (String × List UInt8))
deriving DecidableEq, Repr, Inhabited

/-- What is put around a writer. -/
inductive Layer where
  /-- Source files begin with a header. -/
  | header (text : String)
  /-- The listener is told of every file, with its number and the number of all files. -/
  | progress (total announced : Nat)
deriving DecidableEq, Repr, Inhabited

structure Writer where
  core : Core
  /-- What is around the core, from the inside out. -/
  layers : List Layer := []
  /-- The name of the character set of source files. -/
  encoding : String := "utf-8"
  /-- How often the writer has been closed. -/
  closings : Nat := 0
deriving DecidableEq, Repr, Inhabited

structure Desk where
  system : FileSystem
  channel : Channel
  writer : Writer
deriving Inhabited, Repr

abbrev Writing (α : Type) := ExceptT Fault (StateM Desk) α

inductive Destination where
  /-- To a path, with every file replaced as a whole. -/
  | path (path : Path) (readOnly : Bool)
  /-- Into the archive. -/
  | entry (name : String)
deriving DecidableEq, Repr, Inhabited

/-- An open source file: where it goes, its character set and what it holds so far. -/
structure OpenSource where
  destination : Destination
  charset : Encoding.Charset
  /-- What the file holds so far, if anything has been written. -/
  written : Option (List UInt8) := none
deriving DecidableEq, Repr, Inhabited

/-- A file to be written, with its text, which may turn out not to exist. -/
structure PlannedFile where
  package : Json
  fileName : String
  text : Except Fault String

namespace Destination

/-- Whether a file has a start to which one could go back. -/
def isSeekable : Destination → Bool
  | .path _ _ => true
  | .entry _ => false

end Destination

namespace OpenSource

/-- Write a text, if it can be encoded.  The first text follows the byte order mark. -/
def write? (source : OpenSource) (text : String) : Option OpenSource :=
  (Encoding.encode? source.charset text).map fun bytes =>
    let start :=
      source.written.getD (Encoding.startMark source.destination.isSeekable source.charset)
    { source with written := some (start ++ bytes) }

/-- Write texts up to the first one that cannot be encoded, and say whether all could be. -/
def writeAll (source : OpenSource) : List String → OpenSource × Bool
  | [] => (source, true)
  | text :: rest =>
      match source.write? text with
      | some source => writeAll source rest
      | none => (source, false)

def bytes (source : OpenSource) : List UInt8 :=
  source.written.getD []

end OpenSource

namespace Writing

/-- The value of a computation that cannot write, or its fault. -/
def ofExcept {α : Type} : Except Fault α → Writing α
  | .ok value => pure value
  | .error fault => throw fault

def filing {α : Type} (action : Filing α) : Writing α := do
  let desk ← get
  let (result, system) := action.run desk.system
  set { desk with system }
  ofExcept result

def changeWriter (change : Writer → Writer) : Writing Unit :=
  modify fun desk => { desk with writer := change desk.writer }

/-- The layers with one of the given number replaced. -/
def replaceLayer (index : Nat) (layer : Layer) (writer : Writer) : Writer :=
  { writer with layers := writer.layers.set index layer }

/-- Tell the listener about a file if the layer of the given number is there for that. -/
def announceLayer (package : Json) (fileName : String) : Layer × Nat → Writing Unit
  | (.header _, _) => pure ()
  | (.progress total announced, index) => do
      changeWriter (replaceLayer index (.progress total (announced + 1)))
      let path ← ofExcept (unitPath package fileName)
      modify fun desk =>
        { desk with channel := desk.channel.tell (.generated path (announced + 1) total) }

/-- Tell the listener about a file, as often as there are layers for that, from the outside in. -/
def announce (package : Json) (fileName : String) : Writing Unit := do
  (← get).writer.layers.zipIdx.reverse.forM (announceLayer package fileName)

/-- Where the next file goes. -/
def openDestination (package : Json) (fileName : String) : Writing Destination := do
  let path ← ofExcept (unitPath package fileName)
  let writer := (← get).writer
  match writer.core with
  | .directory target readOnly => return .path (target.join (Path.parse path)) readOnly
  | .archive _ => do
      if 0 < writer.closings then
        throw (.invalid "Attempt to use ZIP archive that was already closed")
      return .entry (Text.before (Char.ofNat 0) path)

/-- Close a file that holds the given bytes. -/
def commit (destination : Destination) (bytes : List UInt8) : Writing Unit :=
  match destination with
  | .path path readOnly => filing (Filing.replaceFile path bytes readOnly)
  | .entry name =>
      changeWriter fun writer =>
        match writer.core with
        | .archive entries => { writer with core := .archive (entries ++ [(name, bytes)]) }
        | .directory _ _ => writer

/-- Close a file after a failure.  That this fails too does not matter any more. -/
def abandon (destination : Destination) (bytes : List UInt8) : Writing Unit :=
  tryCatch (commit destination bytes) fun _ => pure ()

/-- The headers of a source file in the pieces in which they are written, from the inside out. -/
def headerPieces (writer : Writer) (fileName : String) : List String :=
  writer.layers.flatMap fun layer =>
    match layer with
    | .header text => Header.pieces text fileName
    | .progress _ _ => []

/-- The character set of a name, which must not hold a null character. -/
def charsetNamed (name : String) : Except Fault Encoding.Charset :=
  if name.toList.contains (Char.ofNat 0) then .error (.invalid "embedded null character")
  else
    match Encoding.charset? name with
    | some charset => .ok charset
    | none => .error .unknownEncoding

def openSource (package : Json) (fileName : String) : Writing OpenSource := do
  announce package fileName
  let destination ← openDestination package fileName
  let writer := (← get).writer
  match charsetNamed writer.encoding with
  | .error fault => do
      abandon destination []
      throw fault
  | .ok charset => do
      let (source, complete) :=
        OpenSource.writeAll { destination, charset } (headerPieces writer fileName)
      if complete then return source
      abandon destination source.bytes
      throw .unencodable

def finishSource (source : OpenSource) (texts : List String) : Writing Unit := do
  let (source, complete) := source.writeAll texts
  commit source.destination source.bytes
  if complete then return
  throw .unencodable

def writeSource (package : Json) (fileName : String) (texts : List String) : Writing Unit := do
  let source ← openSource package fileName
  finishSource source texts

def writeBinary (package : Json) (fileName : String) (bytes : List UInt8) : Writing Unit := do
  announce package fileName
  let destination ← openDestination package fileName
  commit destination bytes

/-- Close the writer.  Nothing can be added to an archive any more. -/
def close : Writing Unit :=
  changeWriter fun writer => { writer with closings := writer.closings + 1 }

/-- The fault with which a delivery ends when a file cannot be opened.  An archive cannot be closed
while one of its files is still open because of a header that cannot be encoded. -/
def openingFault (fault : Fault) : Writing Fault := do
  match (← get).writer.core, fault with
  | .archive _, .unencodable =>
      return .invalid
        ("Can't close the ZIP file while there is an open writing handle on it. Close the " ++
          "writing handle before closing the zip.")
  | _, _ => return fault

/-- Render and write a file. -/
def writePlanned (file : PlannedFile) : Writing Unit := do
  let text ← ofExcept file.text
  let source ← tryCatch (openSource file.package file.fileName) fun fault => do
    throw (← openingFault fault)
  finishSource source [text]

/-- Write files one after the other, and close the writer at the end or after a failure. -/
def deliver (files : List PlannedFile) : Writing Unit := do
  tryCatch (files.forM writePlanned) fun fault => do
    close
    throw fault
  close

end Writing

end Typeloom
