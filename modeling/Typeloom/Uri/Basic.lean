import Typeloom.Uri.Host

/-!
# URIs

A URI is cut into its parts and put together again.  The scheme decides whether the last part of
the path may carry parameters and whether an empty authority is written.
-/

namespace Typeloom

structure Uri where
  /-- The scheme, in small letters. -/
  scheme : List Char
  authority : List Char
  path : List Char
  parameters : List Char
  query : List Char
  fragment : List Char
deriving DecidableEq, Repr, Inhabited

namespace Uri

/-- The schemes whose references may be relative. -/
def relativeSchemes : List String := [
  "", "ftp", "http", "gopher", "nntp", "imap", "wais", "file", "https", "shttp", "mms",
  "prospero", "rtsp", "rtspu", "sftp", "svn", "svn+ssh", "ws", "wss"]

def authoritySchemes : List String := [
  "", "ftp", "http", "gopher", "nntp", "telnet", "imap", "wais", "file", "mms", "https", "shttp",
  "snews", "prospero", "rtsp", "rtspu", "rsync", "svn", "svn+ssh", "sftp", "nfs", "git",
  "git+ssh", "ws", "wss"]

def parameterSchemes : List String := [
  "", "ftp", "hdl", "prospero", "http", "imap", "https", "shttp", "rtsp", "rtspu", "sip", "sips",
  "mms", "sftp", "tel"]

def isOneOf (scheme : List Char) (schemes : List String) : Bool :=
  schemes.contains (String.ofList scheme)

def isSchemeCharacter (character : Char) : Bool :=
  character.isAlphanum || character = '+' || character = '-' || character = '.'

/-- A text without the control characters and blanks in front of it, and without any tabs and
line ends. -/
def cleaned (text : List Char) : List Char :=
  (text.dropWhile (·.toNat ≤ 32)).filter fun character =>
    !(character = '\t' || character = '\r' || character = '\n')

/-- The scheme of a text, if it has one, and the rest. -/
def cutScheme (text fallback : List Char) : List Char × List Char :=
  match Text.cut ':' text with
  | (scheme, some rest) =>
      if (scheme.head?.map Char.isAlpha).getD false && scheme.all isSchemeCharacter then
        (scheme.map Char.toLower, rest)
      else (fallback, text)
  | (_, none) => (fallback, text)

/-- Whether a character ends an authority. -/
def endsAuthority (character : Char) : Bool :=
  character = '/' || character = '?' || character = '#'

/-- The authority of a text without a scheme, and the rest. -/
def cutAuthority : List Char → List Char × List Char
  | '/' :: '/' :: rest =>
      (rest.takeWhile fun character => !endsAuthority character,
        rest.dropWhile fun character => !endsAuthority character)
  | other => ([], other)

/-- The parameters of the last part of a path, and the path without them. -/
def cutParameters (path : List Char) : List Char × List Char :=
  match Text.cutLast '/' path with
  | (some directory, last) =>
      let (name, parameters?) := Text.cut ';' last
      (directory ++ '/' :: name, parameters?.getD [])
  | (none, last) =>
      let (name, parameters?) := Text.cut ';' last
      (name, parameters?.getD [])

/-- The parts of a URI.  A URI without a scheme gets the given one. -/
def parseWith (fallback text : List Char) : Except Fault Uri := do
  let (scheme, afterScheme) := cutScheme (cleaned text) fallback
  let (authority, afterAuthority) := cutAuthority afterScheme
  checkBrackets authority
  let (beforeFragment, fragment?) := Text.cut '#' afterAuthority
  let (wholePath, query?) := Text.cut '?' beforeFragment
  checkForms authority
  let (path, parameters) :=
    if isOneOf scheme parameterSchemes then cutParameters wholePath else (wholePath, [])
  return { scheme, authority, path, parameters
           query := query?.getD [], fragment := fragment?.getD [] }

def parse (text : String) : Except Fault Uri :=
  parseWith [] text.toList

/-- A mark and a part, or nothing if the part is empty. -/
def markedPart (mark : Char) (part : List Char) : List Char :=
  if part.isEmpty then [] else mark :: part

/-- A path behind an authority, which is written if there is one or if the scheme has one. -/
def writeHierarchy (uri : Uri) : List Char :=
  let path := uri.path ++ markedPart ';' uri.parameters
  if !uri.authority.isEmpty
      || (!uri.scheme.isEmpty && isOneOf uri.scheme authoritySchemes &&
        path.take 2 != ['/', '/']) then
    let absolute := if path.isEmpty || path.head? = some '/' then path else '/' :: path
    '/' :: '/' :: uri.authority ++ absolute
  else path

def write (uri : Uri) : String :=
  let hierarchy := uri.writeHierarchy
  let withScheme := if uri.scheme.isEmpty then hierarchy else uri.scheme ++ ':' :: hierarchy
  String.ofList (withScheme ++ markedPart '?' uri.query ++ markedPart '#' uri.fragment)

end Uri

end Typeloom
