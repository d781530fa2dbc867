import Typeloom.Encoding.Utf8
import Typeloom.Files.Path
import Typeloom.Text.Hexadecimal
import Typeloom.Uri.Reference

/-!
# Addresses of documents

A source on the command line is a path or a URI.  A path becomes the URI of the file it leads to
from the current directory.  The name of a document is the first part of its file name.
-/

namespace Typeloom

namespace Uri

/-! ## Percent coding

A byte of a path that may not stand in a URI is written as a percent sign and two hexadecimal
digits.  Decoding leaves a percent sign alone that no such digits follow, and decodes each run of
ASCII characters on its own. -/

/-- Whether a byte stands for itself in the path of a URI. -/
def isPlainByte (byte : UInt8) : Bool :=
  let character := Char.ofNat byte.toNat
  character.isAlphanum || ['_', '.', '-', '~', '/'].contains character

def encodeByte (byte : UInt8) : List Char :=
  if isPlainByte byte then [Char.ofNat byte.toNat]
  else '%' :: (Text.hexadecimal 2 byte.toNat).map Char.toUpper

/-- A path as a part of a URI. -/
def percentEncode (path : String) : String :=
  String.ofList ((Encoding.utf8 path).flatMap encodeByte)

/-- The bytes of an ASCII text with percent signs. -/
def decodeBytes : List Char → List UInt8
  | '%' :: high :: low :: rest =>
      match Text.ofHexadecimal? [high, low] with
      | some value => UInt8.ofNat value :: decodeBytes rest
      | none => UInt8.ofNat '%'.toNat :: decodeBytes (high :: low :: rest)
  | character :: rest => UInt8.ofNat character.toNat :: decodeBytes rest
  | [] => []

/-- Decode a text of which `run`, reversed, is the run of ASCII characters before the rest. -/
def decodeRuns (run : List Char) : List Char → List Char
  | [] => Encoding.utf8Lenient (decodeBytes run.reverse)
  | character :: rest =>
      if character.toNat < 128 then decodeRuns (character :: run) rest
      else
        Encoding.utf8Lenient (decodeBytes run.reverse) ++ character :: decodeRuns [] rest

/-- The path that a part of a URI stands for. -/
def percentDecode (part : List Char) : String :=
  String.ofList (decodeRuns [] part)

/-! ## Sources -/

/-- Follow the parts of a path that lead to the parent directory. -/
def collapse (parts : List String) : List String :=
  parts.foldl (fun kept part => if part = ".." then kept.dropLast else kept ++ [part]) []

/-- Whether a source is a URI. -/
def isUri (source : String) : Bool :=
  Text.occursIn "://".toList source.toList

/-- The URI of an absolute path. -/
def ofParts (parts : List String) : String :=
  "file://" ++ percentEncode ("/" ++ "/".intercalate parts)

/-- The address of a source, seen from a directory. -/
def ofSource (directory : List String) (source : String) : Except Fault String :=
  if isUri source then .ok source
  else if Path.isUnusableText source then .error (.invalid "embedded null byte")
  else
    let path := Path.parse source
    let start := if path.slashes = 0 then directory else []
    .ok (ofParts (collapse (start ++ path.parts)))

/-- The name for the type that a document itself describes: its file name up to the first
point. -/
def rootName (systemId : String) : Except Fault String := do
  let uri ← parse systemId
  let name := Text.before '.' (Path.parse (String.ofList uri.path)).name
  return if name.isEmpty then "Root" else name

end Uri

end Typeloom
