import Typeloom.Context.Connection
import Typeloom.Files.FileSystem
import Typeloom.Unicode.Blank
import Typeloom.Uri.Basic
import Typeloom.Uri.Source

/-!
# Reading documents

A document is read from the file system if its address says so, and fetched otherwise.
-/

namespace Typeloom

/-! ## What is fetched

An address may be given as it is printed in a text: with blanks around it, between angle brackets,
and with the mark `URL:` in front.  The address inside of that must begin with a scheme; what
follows its last number sign does not count for that. -/

/-- What is asked for at a remote place. -/
structure FetchTarget where
  /-- The address up to its last number sign. -/
  place : List Char
  /-- What follows the last number sign. -/
  fragment : List Char
deriving DecidableEq, Repr, Inhabited

namespace FetchTarget

def mark : List Char := ['U', 'R', 'L', ':']

def withoutBrackets (address : List Char) : List Char :=
  if address.head? = some '<' && address.getLast? = some '>' then
    Unicode.trim (address.drop 1).dropLast
  else address

def withoutMark (address : List Char) : List Char :=
  if mark.isPrefixOf address then Unicode.trim (address.drop mark.length) else address

/-- What is asked for by an address as it is printed in a text. -/
def ofPrinted (printed : List Char) : FetchTarget :=
  match Text.cutLast '#' (withoutMark (withoutBrackets (Unicode.trim printed))) with
  | (some place, fragment) => { place, fragment }
  | (none, place) => { place, fragment := [] }

/-- The whole address.  A number sign with nothing behind it is left out. -/
def address (target : FetchTarget) : String :=
  String.ofList (target.place ++ Uri.markedPart '#' target.fragment)

/-- Whether there is a scheme, of any characters but slashes. -/
def hasScheme (target : FetchTarget) : Bool :=
  match Text.cut ':' target.place with
  | (_, none) => false
  | (scheme, some _) => !scheme.isEmpty && !scheme.contains '/'

/-- Check that an address as it is printed in a text can be asked for.  An address without a scheme
is refused, and so is one whose authority is not well formed. -/
def check (printed : String) : Except Fault Unit := do
  let target := ofPrinted printed.toList
  if !target.hasScheme then
    throw (.invalid ("unknown url type: " ++ Text.quoted target.address))
  let _ ← Uri.parse target.address

end FetchTarget

/-! ## Documents -/

structure DocumentSource where
  system : FileSystem
  /-- What can be fetched, by addresses, which are known in one spelling only. -/
  remote : Table String (List UInt8) := []
  connection : Connection := {}
deriving Inhabited, Repr

namespace DocumentSource

/-- Fetch a document.  It is looked for under the address exactly as it is given. -/
def fetch (source : DocumentSource) (address : String) : Except Fault (List UInt8) := do
  if !source.connection.isOpen then throw .contextClosed
  FetchTarget.check address
  match Table.get? source.remote address with
  | some bytes => return bytes
  | none => throw (.system .unreachable)

def readFile (source : DocumentSource) (part : List Char) : Except Fault (List UInt8) :=
  let path := Path.parse (Uri.percentDecode part)
  if path.isUnusable then .error (.invalid "embedded null byte")
  else (source.system.read path).mapError .system

def read (source : DocumentSource) (address : String) : Except Fault (List UInt8) := do
  let uri ← Uri.parse address
  if uri.scheme = "file".toList then source.readFile uri.path else source.fetch address

end DocumentSource

end Typeloom
