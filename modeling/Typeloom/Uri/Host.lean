import Typeloom.Fault
import Typeloom.Text.Pieces

/-!
# Hosts of a URI

The authority of a URI may hold a numeric address between brackets.  Such an address is checked,
and so is an authority with characters that stand for a delimiter in another form.
-/

namespace Typeloom

namespace Uri

/-- The characters above the ASCII range whose compatibility form holds a delimiter. -/
def delimiterForms : List Nat := [
  0x2047, 0x2048, 0x2049, 0x2100, 0x2101, 0x2105, 0x2106, 0x2A74, 0xFE13, 0xFE16, 0xFE55, 0xFE56,
  0xFE5F, 0xFE6B, 0xFF03, 0xFF0F, 0xFF1A, 0xFF1F, 0xFF20]

/-- A number from 0 to 255 in decimal, without a leading zero. -/
def isOctet (text : List Char) : Bool :=
  !text.isEmpty && text.all Char.isDigit && text.length ≤ 3 &&
    (text == ['0'] || text.head? != some '0') &&
    text.foldl (fun value digit => value * 10 + (digit.toNat - 48)) 0 ≤ 255

/-- Four octets with points between them. -/
def isFourOctets (text : List Char) : Bool :=
  let parts := Text.pieces '.' text
  parts.length = 4 && parts.all isOctet

/-- One to four hexadecimal digits. -/
def isHexadecimalGroup (text : List Char) : Bool :=
  !text.isEmpty && text.length ≤ 4 &&
    text.all fun digit =>
      digit.isDigit || ('a' ≤ digit && digit ≤ 'f') || ('A' ≤ digit && digit ≤ 'F')

/-- The groups of an address of eight groups, in which the last two may be written as four
octets. -/
def groupsOf? (text : List Char) : Option (List (List Char)) :=
  let parts := Text.pieces ':' text
  match parts.getLast? with
  | some last =>
      if last.contains '.' then
        if isFourOctets last then some (parts.dropLast ++ [['0'], ['0']]) else none
      else some parts
  | none => none

/-- Whether groups with one omitted run, at the given place, make an address. -/
def isAbridged (groups : List (List Char)) (skip : Nat) : Bool :=
  let high := groups.take skip
  let low := groups.drop (skip + 1)
  let high' := if high.head? = some [] then high.drop 1 else high
  let low' := if low.getLast? = some [] then low.dropLast else low
  (high.head? != some [] || high'.isEmpty) && (low.getLast? != some [] || low'.isEmpty) &&
    high'.length + low'.length ≤ 7 && high'.all isHexadecimalGroup && low'.all isHexadecimalGroup

/-- The places of the empty groups that are neither the first nor the last. -/
def innerGaps (groups : List (List Char)) : List Nat :=
  (List.range groups.length).filter fun index =>
    0 < index && index + 1 < groups.length && groups[index]? = some []

/-- An address of eight groups of hexadecimal digits, without a zone. -/
def isEightGroups (text : List Char) : Bool :=
  2 < (Text.pieces ':' text).length &&
    match groupsOf? text with
    | none => false
    | some groups =>
        groups.length ≤ 9 &&
          match innerGaps groups with
          | [] => groups.length = 8 && groups.all isHexadecimalGroup
          | [skip] => isAbridged groups skip
          | _ => false

/-- An address of eight groups of hexadecimal digits, with or without a zone. -/
def isLongAddress (text : List Char) : Bool :=
  !text.contains '/' &&
    match Text.cut '%' text with
    | (address, none) => isEightGroups address
    | (address, some zone) => !zone.isEmpty && !zone.contains '%' && isEightGroups address

/-- An address of a future version: a version number and something after a point. -/
def isFutureAddress (text : List Char) : Bool :=
  match Text.cut '.' (text.drop 1) with
  | (version, some rest) =>
      !version.isEmpty && version.all (fun digit => (Text.ofHexadecimal? [digit]).isSome) &&
        !rest.isEmpty && !rest.contains '\n'
  | (_, none) => false

/-- Check what stands between the brackets of an authority. -/
def checkBracketed (host : List Char) : Except Fault Unit :=
  if host.head? = some 'v' then
    if isFutureAddress host then .ok () else .error (.invalid "IPvFuture address is invalid")
  else if isFourOctets host then .error (.invalid "An IPv4 address cannot be in brackets")
  else if isLongAddress host then .ok ()
  else
    .error (.invalid
      (Text.quoted (String.ofList host) ++ " does not appear to be an IPv4 or IPv6 address"))

def checkBrackets (authority : List Char) : Except Fault Unit :=
  let refused : Except Fault Unit := .error (.invalid "Invalid IPv6 URL")
  match authority.contains '[', authority.contains ']' with
  | false, false => .ok ()
  | true, true =>
      match Text.cut '[' (Text.cutLast '@' authority).2 with
      | (before, some bracketed) =>
          let (host, after?) := Text.cut ']' bracketed
          let after := after?.getD []
          if !before.isEmpty || (!after.isEmpty && after.head? != some ':') then refused
          else checkBracketed host
      | (host, none) => checkBracketed (Text.cut ':' host).1
  | _, _ => refused

/-- Check that no character of an authority stands for a delimiter. -/
def checkForms (authority : List Char) : Except Fault Unit :=
  if authority.any fun character => delimiterForms.contains character.toNat then
    .error (.invalid
      ("netloc '" ++ String.ofList authority ++
        "' contains invalid characters under NFKC normalization"))
  else .ok ()

end Uri

end Typeloom
