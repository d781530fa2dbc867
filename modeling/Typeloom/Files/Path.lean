import Typeloom.Text.Pieces

/-!
# Paths

A path is absolute or relative and has parts, none of which is empty or stands for the current
directory.  A path that begins with exactly two slashes is kept apart from other absolute paths.
-/

namespace Typeloom

structure Path where
  /-- The number of slashes at the start: none for a relative path, one or two for others. -/
  slashes : Nat
  parts : List String
deriving DecidableEq, Repr, Inhabited

namespace Path

def leadingSlashes : List Char → Nat
  | '/' :: '/' :: '/' :: _ => 1
  | '/' :: '/' :: _ => 2
  | '/' :: _ => 1
  | _ => 0

/-- Whether a piece between slashes is a part of a path. -/
def isPart (piece : List Char) : Bool :=
  !piece.isEmpty && piece != ['.']

def parse (text : String) : Path :=
  let characters := text.toList
  { slashes := leadingSlashes characters
    parts := ((Text.pieces '/' characters).filter isPart).map String.ofList }

/-- The path of a text in which a part for the current directory counts as well.  After a slash at
the end comes an empty part, which asks for a directory like such a part does. -/
def parseStrict (text : String) : Path :=
  let characters := text.toList
  let named := ((Text.pieces '/' characters).filter (!·.isEmpty)).map String.ofList
  { slashes := leadingSlashes characters
    parts := if characters.getLast? = some '/' then named ++ [""] else named }

/-- A path as a text.  The empty path stands for the current directory. -/
def write (path : Path) : String :=
  if path.slashes = 0 && path.parts.isEmpty then "."
  else
    String.ofList
      (List.replicate path.slashes '/' ++ Text.joined '/' (path.parts.map String.toList))

def isCurrent (path : Path) : Bool :=
  path.slashes = 0 && path.parts.isEmpty

def name (path : Path) : String :=
  path.parts.getLast?.getD ""

def parent (path : Path) : Path :=
  { path with parts := path.parts.dropLast }

/-- A path seen from another one.  An absolute path stays as it is. -/
def join (base path : Path) : Path :=
  if path.slashes = 0 then { base with parts := base.parts ++ path.parts } else path

/-- Whether a text cannot be a path because of a null character in it. -/
def isUnusableText (text : String) : Bool :=
  text.toList.contains (Char.ofNat 0)

def isUnusable (path : Path) : Bool :=
  path.parts.any isUnusableText

end Path

end Typeloom
