/-!
# Archives as bytes

An archive holds its entries one after the other, each behind a header of its own, then a
directory of all entries and a record that says where the directory is.  The entries are stored as
they are, with a checksum, and dated to the first day that can be written.
-/

namespace Typeloom

namespace Archive

/-- A number in two bytes, the lower one first. -/
def twoBytes (value : Nat) : List UInt8 :=
  [UInt8.ofNat value, UInt8.ofNat (value / 256)]

/-- A number in four bytes, from the lowest to the highest. -/
def fourBytes (value : Nat) : List UInt8 :=
  twoBytes value ++ twoBytes (value / 65536)

/-- A checksum after one more bit. -/
def shiftChecksum (checksum : UInt32) : UInt32 :=
  if checksum &&& 1 = 1 then (checksum >>> 1) ^^^ 0xEDB88320 else checksum >>> 1

/-- A checksum after one more byte. -/
def addByte (checksum : UInt32) (byte : UInt8) : UInt32 :=
  Nat.repeat shiftChecksum 8 (checksum ^^^ byte.toUInt32)

def checksum (bytes : List UInt8) : Nat :=
  (bytes.foldl addByte 0xFFFFFFFF ^^^ 0xFFFFFFFF).toNat

def nameBytes (name : String) : List UInt8 :=
  name.toUTF8.data.toList

def firstDay : List UInt8 :=
  twoBytes 0 ++ twoBytes 0x21

/-- What the header of an entry and its record in the directory have in common: the version that
is needed, the flag for names in UTF-8, the method, the date, the checksum and the sizes. -/
def description (name : String) (bytes : List UInt8) : List UInt8 :=
  twoBytes 20 ++ twoBytes 0x0800 ++ twoBytes 0 ++ firstDay ++ fourBytes (checksum bytes) ++
    fourBytes bytes.length ++ fourBytes bytes.length ++ twoBytes (nameBytes name).length ++
    twoBytes 0

def entryMark : List UInt8 := [80, 75, 3, 4]

def recordMark : List UInt8 := [80, 75, 1, 2]

def endMark : List UInt8 := [80, 75, 5, 6]

/-- An entry behind its header. -/
def entryBytes (entry : String × List UInt8) : List UInt8 :=
  entryMark ++ description entry.1 entry.2 ++ nameBytes entry.1 ++ entry.2

/-- The record of an entry that begins at an offset. -/
def recordBytes (offset : Nat) (entry : String × List UInt8) : List UInt8 :=
  recordMark ++ twoBytes 20 ++ description entry.1 entry.2 ++ twoBytes 0 ++ twoBytes 0 ++
    twoBytes 0 ++ fourBytes 0 ++ fourBytes offset ++ nameBytes entry.1

/-- The directory of entries, the first of which begins at an offset. -/
def directoryBytes (offset : Nat) : List (String × List UInt8) → List UInt8
  | [] => []
  | entry :: rest =>
      recordBytes offset entry ++ directoryBytes (offset + (entryBytes entry).length) rest

def toBytes (entries : List (String × List UInt8)) : List UInt8 :=
  let content := entries.flatMap entryBytes
  let directory := directoryBytes 0 entries
  content ++ directory ++ endMark ++ twoBytes 0 ++ twoBytes 0 ++ twoBytes entries.length ++
    twoBytes entries.length ++ fourBytes directory.length ++ fourBytes content.length ++
    twoBytes 0

end Archive

end Typeloom
