import Typeloom.Fault
import Typeloom.Files.Archive
import Typeloom.Files.Path
import Typeloom.Table
import Typeloom.Text.Sorting

/-!
# The file system

Directories and files below the root, with the directory from which relative paths are seen.  A
path is followed part by part: all parts but the last must lead to directories.
-/

namespace Typeloom

inductive FileContent where
  | bytes (content : List UInt8)
  | archive (entries : List (String × List UInt8))
deriving DecidableEq, Repr, Inhabited

def FileContent.toBytes : FileContent → List UInt8
  | .bytes content => content
  | .archive entries => Archive.toBytes entries

structure File where
  content : FileContent
  readOnly : Bool := false
deriving DecidableEq, Repr, Inhabited

/-- The directories and files of a system.  Both are known by the parts of their paths from the
root, which is always there. -/
structure FileSystem where
  /-- The directory from which relative paths are seen. -/
  current : List String
  directories : List (List String)
  files : Table (List String) File
deriving DecidableEq, Repr, Inhabited

inductive FileEntry where
  | directory
  | file (file : File)
deriving DecidableEq, Repr, Inhabited

namespace FileSystem

/-- What is found at a place, if there is anything. -/
def entryAt? (system : FileSystem) (place : List String) : Option FileEntry :=
  if place.isEmpty || system.directories.contains place then some .directory
  else (Table.get? system.files place).map .file

def longestName : Nat := 255

def longestPath : Nat := 4095

/-- The place to which parts lead from a directory, whether or not there is anything. -/
def follow (system : FileSystem) (place : List String) : List String →
    Except PathProblem (List String)
  | [] => .ok place
  | part :: rest =>
      match system.entryAt? place with
      | none => .error .missing
      | some (.file _) => .error .notDirectory
      | some .directory =>
          if part.utf8ByteSize > longestName then .error .nameTooLong
          else if part = "." || part.isEmpty then system.follow place rest
          else if part = ".." then system.follow place.dropLast rest
          else system.follow (place ++ [part]) rest

/-- The directory from which a path is seen. -/
def startOf (system : FileSystem) (path : Path) : List String :=
  if path.slashes = 0 then system.current else []

def locate (system : FileSystem) (path : Path) : Except SystemError (List String) :=
  let text := path.write
  if longestPath < text.utf8ByteSize then .error (.file .nameTooLong text)
  else (system.follow (system.startOf path) path.parts).mapError (.file · text)

def entry (system : FileSystem) (path : Path) : Except SystemError FileEntry := do
  match system.entryAt? (← system.locate path) with
  | some entry => return entry
  | none => throw (.file .missing path.write)

/-- What is found at a path, or nothing if there is nothing or the path does not lead anywhere. -/
def lookUp (system : FileSystem) (path : Path) : Except SystemError (Option FileEntry) :=
  match system.entry path with
  | .ok entry => .ok (some entry)
  | .error (.file .missing _) => .ok none
  | .error (.file .notDirectory _) => .ok none
  | .error error => .error error

def isDirectory (system : FileSystem) (path : Path) : Except SystemError Bool := do
  if path.isUnusable then return false
  return (← system.lookUp path) matches some .directory

def isFile (system : FileSystem) (path : Path) : Except SystemError Bool := do
  if path.isUnusable then return false
  return (← system.lookUp path) matches some (.file _)

def read (system : FileSystem) (path : Path) : Except SystemError (List UInt8) := do
  match ← system.entry path with
  | .file file => return file.content.toBytes
  | .directory => throw (.file .isDirectory path.write)

/-- The bytes of the file at a path that is given as a text.  A slash at the end asks for a
directory, and the empty text leads nowhere. -/
def readNamed (system : FileSystem) (text : String) : Except SystemError (List UInt8) :=
  if text.isEmpty then .error (.file .missing text)
  else if longestPath < text.utf8ByteSize then .error (.file .nameTooLong text)
  else (system.read (Path.parseStrict text)).mapError (SystemError.atPath text)

def namesIn (system : FileSystem) (place : List String) : List String :=
  let places := system.directories ++ Table.keys system.files
  Text.sorted (places.filterMap fun other =>
    if other.dropLast = place then other.getLast? else none)

/-- The paths of what is in a directory under names with the given end, sorted. -/
def membersEnding (system : FileSystem) (path : Path) (tail : String) : List Path :=
  match system.locate path with
  | .error _ => []
  | .ok place =>
      ((system.namesIn place).filter fun name => Text.endsWith name tail).map fun name =>
        { path with parts := path.parts ++ [name] }

def putFile (place : List String) (file : File) (system : FileSystem) : FileSystem :=
  { system with files := Table.set place file system.files }

def putDirectory (place : List String) (system : FileSystem) : FileSystem :=
  { system with directories := system.directories ++ [place] }

/-- Put directories at the places to which the parts lead one after the other, where nothing is. -/
def putDirectories (place : List String) : List String → FileSystem → FileSystem
  | [], system => system
  | part :: rest, system =>
      let next := place ++ [part]
      putDirectories next rest
        (if (system.entryAt? next).isSome then system else system.putDirectory next)

/-- The files that another system has and this one does not have in the same way, sorted by their
paths. -/
def changesTo (system later : FileSystem) : Table (List String) File :=
  let changed := later.files.filter fun (place, file) =>
    Table.get? system.files place ≠ some file
  Text.sortedBy (fun (place, _) => "/".intercalate place) changed

end FileSystem

end Typeloom
