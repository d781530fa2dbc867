import Typeloom.Encoding.Wide
import Typeloom.Fault
import Typeloom.Text.Hexadecimal

/-!
# Texts of documents

A document is read as UTF-8, UTF-16 or UTF-32.  Which of them it is follows from the byte order
mark at its start, or else from where its first four bytes are zero, because a JSON text begins
with ASCII characters.
-/

namespace Typeloom

namespace Encoding

inductive DocumentEncoding where
  | utf8
  | utf16 (order : ByteOrder)
  | utf32 (order : ByteOrder)
deriving DecidableEq, Repr, Inhabited

def DocumentEncoding.label : DocumentEncoding → String
  | .utf8 => "utf-8"
  | .utf16 .little => "utf-16-le"
  | .utf16 .big => "utf-16-be"
  | .utf32 .little => "utf-32-le"
  | .utf32 .big => "utf-32-be"

def markedEncoding? (bytes : List UInt8) : Option (DocumentEncoding × Nat) :=
  match bytes.map UInt8.toNat with
  | 0x00 :: 0x00 :: 0xFE :: 0xFF :: _ => some (.utf32 .big, 4)
  | 0xFF :: 0xFE :: 0x00 :: 0x00 :: _ => some (.utf32 .little, 4)
  | 0xFE :: 0xFF :: _ => some (.utf16 .big, 2)
  | 0xFF :: 0xFE :: _ => some (.utf16 .little, 2)
  | 0xEF :: 0xBB :: 0xBF :: _ => some (.utf8, 3)
  | _ => none

def unmarkedEncoding (bytes : List UInt8) : DocumentEncoding :=
  match bytes.map UInt8.toNat with
  | [first, second] =>
      if first = 0 then .utf16 .big else if second = 0 then .utf16 .little else .utf8
  | first :: second :: third :: fourth :: _ =>
      if first = 0 then (if second = 0 then .utf32 .big else .utf16 .big)
      else if second = 0 then
        (if third = 0 && fourth = 0 then .utf32 .little else .utf16 .little)
      else .utf8
  | _ => .utf8

/-- A defect in a sentence, with the place where it is in the bytes. -/
def describeDefect (label : String) (bytes : List UInt8) (position : Nat) (defect : Defect) :
    String :=
  let place :=
    if defect.length = 1 then
      "byte 0x" ++ String.ofList (Text.hexadecimal 2 ((bytes.drop position).headD 0).toNat) ++
        " in position " ++ toString position
    else
      "bytes in position " ++ toString position ++ "-" ++
        toString (position + defect.length - 1)
  "'" ++ label ++ "' codec can't decode " ++ place ++ ": " ++ defect.reason

/-- The text of bytes in a given encoding, after `skipped` bytes. -/
def decodeAs (encoding : DocumentEncoding) (skipped : Nat) (bytes : List UInt8) :
    Except (Nat × Defect) (List Char) :=
  match encoding with
  | .utf8 => decodeUtf8 true skipped (bytes.drop skipped)
  | .utf16 order => decodeUtf16 order skipped (bytes.drop skipped)
  | .utf32 order => decodeUtf32 order skipped (bytes.drop skipped)

/-- The text of a document.  The byte order mark of UTF-8 does not count as a part of it, those of
the other encodings do. -/
def documentText (bytes : List UInt8) : Except Fault String :=
  let (encoding, skipped, counted) :=
    match markedEncoding? bytes with
    | some (.utf8, length) => (DocumentEncoding.utf8, 0, bytes.drop length)
    | some (encoding, length) => (encoding, length, bytes)
    | none => (unmarkedEncoding bytes, 0, bytes)
  match decodeAs encoding skipped counted with
  | .ok text => .ok (String.ofList text)
  | .error (position, defect) =>
      .error (.undecodable (describeDefect encoding.label counted position defect))

def utf8Text (bytes : List UInt8) : Except Fault String :=
  match decodeUtf8 false 0 bytes with
  | .ok text => .ok (String.ofList text)
  | .error (position, defect) =>
      .error (.undecodable (describeDefect "utf-8" bytes position defect))

end Encoding

end Typeloom
