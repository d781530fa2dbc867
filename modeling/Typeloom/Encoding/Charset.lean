import Typeloom.Encoding.Wide

/-!
# Character sets of generated files

A generated file is written in a character set that is chosen by name.  Names are compared
without regard to case and to what separates their parts, and several names may mean the same
set.
-/

namespace Typeloom

namespace Encoding

inductive Charset where
  | utf8
  | utf8Marked
  /-- UTF-16 in little order, behind a byte order mark where the stream has a start. -/
  | utf16Marked
  | utf16 (order : ByteOrder)
  /-- UTF-32 in little order, behind a byte order mark where the stream has a start. -/
  | utf32Marked
  | utf32 (order : ByteOrder)
  | ascii
  | latin1
  | windows1252
deriving DecidableEq, Repr, Inhabited

/-- The own names of the character sets, with underscores between their parts. -/
def ownNames : List (String × Charset) := [
  ("utf_8", .utf8), ("utf_8_sig", .utf8Marked), ("utf_16", .utf16Marked),
  ("utf_16_le", .utf16 .little), ("utf_16_be", .utf16 .big), ("utf_32", .utf32Marked),
  ("utf_32_le", .utf32 .little), ("utf_32_be", .utf32 .big), ("ascii", .ascii),
  ("latin_1", .latin1), ("cp1252", .windows1252)]

/-- Other names of the character sets, with underscores between their parts. -/
def otherNames : List (String × Charset) := [
  ("u8", .utf8), ("utf", .utf8), ("utf8", .utf8), ("utf8_ucs2", .utf8), ("utf8_ucs4", .utf8),
  ("cp65001", .utf8), ("u16", .utf16Marked), ("utf16", .utf16Marked),
  ("utf_16le", .utf16 .little), ("unicodelittleunmarked", .utf16 .little),
  ("utf_16be", .utf16 .big), ("unicodebigunmarked", .utf16 .big), ("u32", .utf32Marked),
  ("utf32", .utf32Marked), ("utf_32le", .utf32 .little), ("utf_32be", .utf32 .big),
  ("646", .ascii), ("ansi_x3.4_1968", .ascii), ("ansi_x3_4_1968", .ascii),
  ("ansi_x3.4_1986", .ascii), ("cp367", .ascii), ("csascii", .ascii), ("ibm367", .ascii),
  ("iso646_us", .ascii), ("iso_646.irv_1991", .ascii), ("iso_ir_6", .ascii), ("us", .ascii),
  ("us_ascii", .ascii), ("8859", .latin1), ("cp819", .latin1), ("csisolatin1", .latin1),
  ("ibm819", .latin1), ("iso8859", .latin1), ("iso8859_1", .latin1), ("iso_8859_1", .latin1),
  ("iso_8859_1_1987", .latin1), ("iso_ir_100", .latin1), ("l1", .latin1), ("latin", .latin1),
  ("latin1", .latin1), ("1252", .windows1252), ("windows_1252", .windows1252)]

/-- The parts of a name: runs of ASCII letters, digits and points. -/
def nameParts : List Char → List (List Char)
  | [] => [[]]
  | character :: rest =>
      if character.isAlphanum || character = '.' then
        match nameParts rest with
        | [] => [[character]]
        | part :: more => (character :: part) :: more
      else [] :: nameParts rest

/-- A name in small letters, with one underscore between its parts. -/
def normalizedName (name : String) : String :=
  let parts := (nameParts (name.toList.map Char.toLower)).filter fun part => !part.isEmpty
  String.ofList (['_'].intercalate parts)

def withoutPoints (name : String) : String :=
  String.ofList (name.toList.map fun character => if character = '.' then '_' else character)

/-- The name of the character set of the system, which is UTF-8.  It is spelled in this way only. -/
def systemName : String := "locale"

/-- The character set of a name.  A point may stand for an underscore in the other names of a set,
but not in its own name. -/
def charset? (name : String) : Option Charset :=
  if name = systemName then some .utf8
  else
    let normalized := normalizedName name
    otherNames.lookup normalized <|> otherNames.lookup (withoutPoints normalized) <|>
      ownNames.lookup normalized

/-- The characters of the bytes from 128 to 159 in Windows-1252, zero where a byte has none. -/
def windowsCharacters : List Nat := [
  0x20AC, 0, 0x201A, 0x192, 0x201E, 0x2026, 0x2020, 0x2021, 0x2C6, 0x2030, 0x160, 0x2039, 0x152,
  0, 0x17D, 0, 0, 0x2018, 0x2019, 0x201C, 0x201D, 0x2022, 0x2013, 0x2014, 0x2DC, 0x2122, 0x161,
  0x203A, 0x153, 0, 0x17E, 0x178]

/-- The byte of a character in a set of at most 256 characters, the first `limit` of which have
their own code. -/
def ownByte? (limit : Nat) (character : Char) : Option UInt8 :=
  if character.toNat < limit then some (UInt8.ofNat character.toNat) else none

def windowsByte? (character : Char) : Option UInt8 :=
  let code := character.toNat
  if code < 128 || (160 ≤ code && code < 256) then some (UInt8.ofNat code)
  else
    (windowsCharacters.findIdx? fun known => known ≠ 0 && known = code).map fun index =>
      UInt8.ofNat (128 + index)

/-- The byte order mark with which a text in a character set begins, where the stream has a start
to put it at. -/
def startMark (seekable : Bool) : Charset → List UInt8
  | .utf8Marked => [0xEF, 0xBB, 0xBF]
  | .utf16Marked => if seekable then [0xFF, 0xFE] else []
  | .utf32Marked => if seekable then [0xFF, 0xFE, 0, 0] else []
  | _ => []

def encode? (charset : Charset) (text : String) : Option (List UInt8) :=
  match charset with
  | .utf8 => some (utf8 text)
  | .utf8Marked => some (utf8 text)
  | .utf16Marked => some (utf16 .little text)
  | .utf16 order => some (utf16 order text)
  | .utf32Marked => some (utf32 .little text)
  | .utf32 order => some (utf32 order text)
  | .ascii => text.toList.mapM (ownByte? 128)
  | .latin1 => text.toList.mapM (ownByte? 256)
  | .windows1252 => text.toList.mapM windowsByte?

end Encoding

end Typeloom
