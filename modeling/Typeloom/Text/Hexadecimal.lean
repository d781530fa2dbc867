/-!
# Hexadecimal numerals

Numerals of a fixed width in small letters, as they occur in escapes and in byte listings, and
the value of a hexadecimal digit of either case.
-/

namespace Typeloom

namespace Text

/-- The digit for a number below sixteen, in small letters. -/
def hexadecimalDigit (value : Nat) : Char :=
  if value < 10 then Char.ofNat ('0'.toNat + value) else Char.ofNat ('a'.toNat + (value - 10))

/-- The last `width` hexadecimal digits of a number, the highest first. -/
def hexadecimal : Nat → Nat → List Char
  | 0, _ => []
  | width + 1, value => hexadecimal width (value / 16) ++ [hexadecimalDigit (value % 16)]

theorem length_hexadecimal (width value : Nat) : (hexadecimal width value).length = width := by
  induction width generalizing value with
  | zero => rfl
  | succ width inductionHypothesis => simp [hexadecimal, inductionHypothesis]

def hexadecimalValue? (character : Char) : Option Nat :=
  let code := character.toNat
  if '0'.toNat ≤ code && code ≤ '9'.toNat then some (code - '0'.toNat)
  else if 'a'.toNat ≤ code && code ≤ 'f'.toNat then some (code - 'a'.toNat + 10)
  else if 'A'.toNat ≤ code && code ≤ 'F'.toNat then some (code - 'A'.toNat + 10)
  else none

/-- The value of a numeral, if all its characters are hexadecimal digits. -/
def ofHexadecimal? (digits : List Char) : Option Nat :=
  digits.foldl
    (fun value? digit => do return (← value?) * 16 + (← hexadecimalValue? digit)) (some 0)

theorem hexadecimalValue?_hexadecimalDigit :
    ∀ value < 16, hexadecimalValue? (hexadecimalDigit value) = some value := by
  decide

/-- The digits of a number are those of its rest modulo a power of sixteen. -/
theorem ofHexadecimal?_hexadecimal (width value : Nat) :
    ofHexadecimal? (hexadecimal width value) = some (value % Nat.pow 16 width) := by
  induction width generalizing value with
  | zero => exact congrArg some (Nat.mod_one value).symm
  | succ width inductionHypothesis =>
      have lastDigit := hexadecimalValue?_hexadecimalDigit (value % 16) (Nat.mod_lt _ (by decide))
      have others := inductionHypothesis (value / 16)
      unfold ofHexadecimal? at others ⊢
      rw [hexadecimal, List.foldl_append, others]
      have decomposed : value / 16 % Nat.pow 16 width * 16 + value % 16 =
          value % Nat.pow 16 (width + 1) := by
        have power : Nat.pow 16 (width + 1) = 16 * Nat.pow 16 width := Nat.mul_comm _ _
        rw [power, Nat.mod_mul]
        omega
      simpa [lastDigit] using decomposed

end Text

end Typeloom
