import Typeloom.Encoding.Utf8

/-!
# UTF-16 and UTF-32

Texts as units of two or four bytes, in either order of the bytes.
-/

namespace Typeloom

namespace Encoding

inductive ByteOrder where
  | little
  | big
deriving DecidableEq, Repr, Inhabited

def bytesOfTwo (order : ByteOrder) (unit : Nat) : List UInt8 :=
  let high := UInt8.ofNat (unit / 0x100)
  let low := UInt8.ofNat (unit % 0x100)
  match order with
  | .little => [low, high]
  | .big => [high, low]

def bytesOfFour (order : ByteOrder) (unit : Nat) : List UInt8 :=
  let high := bytesOfTwo order (unit / 0x10000)
  let low := bytesOfTwo order (unit % 0x10000)
  match order with
  | .little => low ++ high
  | .big => high ++ low

/-- The units of two bytes of a character. -/
def unitsOfCharacter (character : Char) : List Nat :=
  let code := character.toNat
  if code < 0x10000 then [code]
  else [0xD800 + (code - 0x10000) / 0x400, 0xDC00 + (code - 0x10000) % 0x400]

def utf16 (order : ByteOrder) (text : String) : List UInt8 :=
  text.toList.flatMap fun character => (unitsOfCharacter character).flatMap (bytesOfTwo order)

def utf32 (order : ByteOrder) (text : String) : List UInt8 :=
  text.toList.flatMap fun character => bytesOfFour order character.toNat

def unitOfTwo (order : ByteOrder) (first second : UInt8) : Nat :=
  match order with
  | .little => second.toNat * 0x100 + first.toNat
  | .big => first.toNat * 0x100 + second.toNat

/-- The units of bytes, or the number of bytes before a single byte at the end. -/
def unitsOfTwo (order : ByteOrder) (position : Nat) : List UInt8 → Except (Nat × Defect) (List Nat)
  | [] => .ok []
  | [_] => .error (position, ⟨1, "truncated data"⟩)
  | first :: second :: rest => do
      return unitOfTwo order first second :: (← unitsOfTwo order (position + 2) rest)

/-- The characters of units of two bytes.  Half of a surrogate pair is replaced. -/
def charactersOfUnits : List Nat → List Char
  | [] => []
  | [unit] => [if 0xD800 ≤ unit && unit < 0xE000 then replacement else Char.ofNat unit]
  | unit :: next :: rest =>
      if 0xD800 ≤ unit && unit < 0xDC00 && 0xDC00 ≤ next && next < 0xE000 then
        Char.ofNat (0x10000 + (unit - 0xD800) * 0x400 + (next - 0xDC00)) :: charactersOfUnits rest
      else
        (if 0xD800 ≤ unit && unit < 0xE000 then replacement else Char.ofNat unit) ::
          charactersOfUnits (next :: rest)

def decodeUtf16 (order : ByteOrder) (position : Nat) (bytes : List UInt8) :
    Except (Nat × Defect) (List Char) :=
  (unitsOfTwo order position bytes).map charactersOfUnits

def decodeUtf32 (order : ByteOrder) (position : Nat) :
    List UInt8 → Except (Nat × Defect) (List Char)
  | [] => .ok []
  | first :: second :: third :: fourth :: rest =>
      let high := unitOfTwo order first second
      let low := unitOfTwo order third fourth
      let code :=
        match order with
        | .little => low * 0x10000 + high
        | .big => high * 0x10000 + low
      if 0x110000 ≤ code then .error (position, ⟨4, "code point not in range(0x110000)"⟩)
      else do
        let text ← decodeUtf32 order (position + 4) rest
        return (if 0xD800 ≤ code && code < 0xE000 then replacement else Char.ofNat code) :: text
  | rest => .error (position, ⟨rest.length, "truncated data"⟩)

end Encoding

end Typeloom
