import Typeloom.Files.FileSystem

/-!
# Changes of the file system

What a computation changes stays changed when it fails later on.
-/

namespace Typeloom

abbrev Filing (α : Type) := ExceptT Fault (StateM FileSystem) α

namespace Filing

def refuse {α : Type} (problem : PathProblem) (path : Path) : Filing α :=
  throw (.system (.file problem path.write))

/-- The result of looking something up, or the reason why that is refused. -/
def ofLookup {α : Type} : Except SystemError α → Filing α
  | .ok value => pure value
  | .error error => throw (.system error)

/-- Stop if a path holds a null character. -/
def requireUsable (path : Path) : Filing Unit :=
  if path.isUnusable then throw (.invalid "embedded null byte") else pure ()

/-- Make a directory.  The directory above it must be there. -/
def makeDirectory (path : Path) : Filing Unit := do
  requireUsable path
  let system ← get
  let place ← ofLookup (system.locate path)
  match system.entryAt? place with
  | some _ => refuse .exists path
  | none => set (system.putDirectory place)

/-- Let a directory be there already. -/
def allowDirectory (path : Path) (fault : Fault) : Filing Unit := do
  if ← ofLookup ((← get).isDirectory path) then pure () else throw fault

/-- Make a directory with all directories above it, given by its parts from the last one on.
Directories that are there already stay. -/
def makeDirectories (slashes : Nat) : List String → Filing Unit
  | [] => pure ()
  | part :: upper => do
      let path : Path := ⟨slashes, (part :: upper).reverse⟩
      try makeDirectory path
      catch
        | .system (.file .missing _) => do
            makeDirectories slashes upper
            try makeDirectory path
            catch
              | .system (.file .missing missingPath) =>
                  throw (.system (.file .missing missingPath))
              | fault => allowDirectory path fault
        | .system error => allowDirectory path (.system error)
        | fault => throw fault

/-- Replace the file at a path as a whole.  Missing directories are made first, and an existing
file is replaced even if it may only be read. -/
def replaceFile (path : Path) (content : List UInt8) (readOnly : Bool) : Filing Unit := do
  requireUsable path.parent
  makeDirectories path.slashes path.parent.parts.reverse
  requireUsable path
  let system ← get
  let place ← ofLookup (system.locate path)
  match system.entryAt? place with
  | some .directory => refuse .isDirectory path
  | _ => set (system.putFile place { content := .bytes content, readOnly })

/-- Write a file in place.  The directory must be there. -/
def writeFile (path : Path) (content : FileContent) : Filing Unit := do
  requireUsable path
  let system ← get
  let place ← ofLookup (system.locate path)
  match system.entryAt? place with
  | some .directory => refuse .isDirectory path
  | some (.file file) => set (system.putFile place { file with content })
  | none => set (system.putFile place { content })

end Filing

end Typeloom
