/-!
# Character sets as run lengths

A set of code points above the ASCII range is a list of run lengths, counted from code point
`128`: first a run outside the set, then one inside it, and so on in turn.  The tables of
character properties are kept in this form.
-/

namespace Typeloom

namespace Unicode

/-- Whether the code point `offset` places into a list of alternating runs lies in an inner run.
`inside` says to which side the first run belongs. -/
def runsContain (inside : Bool) : List Nat → Nat → Bool
  | [], _ => false
  | length :: rest, offset =>
      if offset < length then inside else runsContain (!inside) rest (offset - length)

/-- Membership of a character in a set whose ASCII part is the predicate `ascii` and whose other
part is the table `runs`. -/
def inTable (ascii : Char → Bool) (runs : List Nat) (character : Char) : Bool :=
  if character.toNat < 128 then ascii character
  else runsContain false runs (character.toNat - 128)

theorem inTable_of_ascii {ascii : Char → Bool} {runs : List Nat} {character : Char}
    (isAscii : character.toNat < 128) :
    inTable ascii runs character = ascii character := by
  simp [inTable, isAscii]

end Unicode

end Typeloom
