import Typeloom.Report.Console
import Typeloom.Run.Program

/-!
# The command line

The program sees the files below the current directory as they are when it starts.  When the run
is over, its messages and its output are printed, and the files it has changed are written.  No
remote document can be fetched.
-/

namespace Typeloom

namespace CommandLine

/-- Add what a directory holds to a file system, with everything below it.  Links are left out. -/
partial def addEntry (place : List String) (system : FileSystem) (entry : IO.FS.DirEntry) :
    IO FileSystem := do
  let place := place ++ [entry.fileName]
  match (← entry.path.symlinkMetadata).type with
  | .dir =>
      let entries ← entry.path.readDir
      entries.foldlM (addEntry place) (system.putDirectory place)
  | .file =>
      let bytes ← IO.FS.readBinFile entry.path
      return system.putFile place { content := .bytes bytes.data.toList }
  | _ => return system

/-- The files below the current directory. -/
def readSystem : IO FileSystem := do
  let directory ← IO.currentDir
  let current := (Path.parse directory.toString).parts
  let start : FileSystem := { current, directories := [], files := [] }
  (← directory.readDir).foldlM (addEntry current) (start.putDirectories [] current)

def pathOf (place : List String) : String :=
  (Path.mk 1 place).write

def accessRights (readOnly : Bool) : IO.FileRight :=
  { user := { read := true, write := !readOnly }, group := { read := true }
    other := { read := true } }

/-- Write a file, even if there is one that may only be read. -/
def writeFile (place : List String) (file : File) : IO Unit := do
  let path := pathOf place
  try IO.FS.removeFile path
  catch _ => pure ()
  IO.FS.writeBinFile path ⟨file.content.toBytes.toArray⟩
  IO.setAccessRights path (accessRights file.readOnly)

def writeChanges (system later : FileSystem) : IO Unit := do
  for place in later.directories do
    unless system.directories.contains place do
      IO.FS.createDirAll (pathOf place)
  for (place, file) in system.changesTo later do
    writeFile place file

/-- Print what a run has told its listener and written to its output. -/
def printSite (site : Site) : IO Unit := do
  for event in site.channel.events do
    IO.eprint event.consoleText
  let output ← IO.getStdout
  output.putStr site.output.text
  output.write ⟨site.output.binary.toBytes.toArray⟩
  output.flush

def exitCode : Except Fault Exit → UInt32
  | .ok .success => 0
  | .ok .failure => 255
  | .error _ => 1

end CommandLine

end Typeloom

open Typeloom in
def main (words : List String) : IO UInt32 := do
  let system ← CommandLine.readSystem
  let start : Site := { system, output := { kind := .binary } }
  let (result, site) := Program.run (Program.argumentsOf words) [] start
  CommandLine.printSite site
  CommandLine.writeChanges system site.system
  if let .error fault := result then
    IO.eprintln (fault.describe?.getD "the documents are not what they should be")
  return CommandLine.exitCode result
