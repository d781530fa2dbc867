import Typeloom.Uri.Basic

/-!
# References to other documents

A reference is resolved against the address of the document that holds it: what it leaves out is
taken from that address, and its path is taken from the directory of that document unless it
begins with a slash.
-/

namespace Typeloom

namespace Uri

/-- Remove the segments for the current directory, and those for the parent directory together
with the segment before them, if there is one. -/
def resolveSegments (segments : List (List Char)) : List (List Char) :=
  let kept := segments.foldl
    (fun kept segment =>
      if segment = ['.', '.'] then kept.drop 1
      else if segment = ['.'] then kept
      else segment :: kept) []
  kept.reverse

/-- The segments without the empty ones that are neither the first nor the last. -/
def withoutInnerGaps : List (List Char) → List (List Char)
  | [] => []
  | [segment] => [segment]
  | first :: rest =>
      first :: (rest.dropLast.filter fun segment => !segment.isEmpty) ++
        (rest.getLast?.map fun last => [last]).getD []

def directorySegments (path : List Char) : List (List Char) :=
  let segments := Text.pieces '/' path
  if segments.getLast? = some [] then segments else segments.dropLast

/-- A path relative to the directory of another path. -/
def joinPaths (base path : List Char) : List Char :=
  let segments :=
    if path.head? = some '/' then Text.pieces '/' path
    else withoutInnerGaps (directorySegments base ++ Text.pieces '/' path)
  let resolved := resolveSegments segments
  let last := segments.getLast?
  let closed :=
    if last = some ['.'] || last = some ['.', '.'] then resolved ++ [[]] else resolved
  let joined := Text.joined '/' closed
  if joined.isEmpty then ['/'] else joined

/-- A reference with the parts that it leaves out. -/
def completed (base reference : Uri) : Uri :=
  if isOneOf reference.scheme authoritySchemes && !reference.authority.isEmpty then reference
  else
    let authority :=
      if isOneOf reference.scheme authoritySchemes then base.authority else reference.authority
    if reference.path.isEmpty && reference.parameters.isEmpty then
      { reference with
        authority := authority
        path := base.path
        parameters := base.parameters
        query := if reference.query.isEmpty then base.query else reference.query }
    else
      { reference with authority := authority, path := joinPaths base.path reference.path }

/-- Resolve a reference against a base. -/
def join (base reference : String) : Except Fault String :=
  if base.isEmpty then .ok reference
  else if reference.isEmpty then .ok base
  else do
    let baseUri ← parse base
    let uri ← parseWith baseUri.scheme reference.toList
    if uri.scheme != baseUri.scheme || !isOneOf uri.scheme relativeSchemes then return reference
    return (completed baseUri uri).write

/-- The address of the document that a reference points at, without the place in it. -/
def documentOf (systemId reference : String) : Except Fault String :=
  join systemId (Text.before '#' reference)

end Uri

end Typeloom
