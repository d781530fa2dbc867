import Typeloom.Number.Shortest

/-!
# Written form of numbers

Integers are written in decimal.  A finite binary number is written with its shortest digits:
positionally, always with a point, if its first digit stands for a power of ten from `10 ^ -4` to
`10 ^ 15`; with a signed exponent of at least two digits otherwise.
-/

namespace Typeloom

namespace Number

/-- The most digits from which an integer is read. -/
def digitLimit : Nat := 4300

/-- What is said of an integer with too many digits. -/
def describeLongInteger (digits : Nat) : String :=
  "Exceeds the limit (" ++ toString digitLimit ++
    " digits) for integer string conversion: value has " ++ toString digits ++
    " digits; use sys.set_int_max_str_digits() to increase the limit"

def decimal (value : Nat) : List Char :=
  Nat.toDigits 10 value

def writeInteger (value : Int) : String :=
  let digits := decimal value.natAbs
  String.ofList (if value < 0 then '-' :: digits else digits)

/-- The exponent of a numeral: a sign and at least two digits. -/
def writeExponent (exponent : Int) : List Char :=
  let digits := decimal exponent.natAbs
  let padded := if digits.length < 2 then '0' :: digits else digits
  'e' :: (if exponent < 0 then '-' else '+') :: padded

def trimZeros (digits : List Char) : List Char :=
  (digits.reverse.dropWhile (· == '0')).reverse

/-- Digits with the point after the first `point` of them. -/
def writePositional (digits : List Char) (point : Int) : List Char :=
  if point ≤ 0 then
    ['0', '.'] ++ List.replicate (-point).toNat '0' ++ digits
  else if (digits.length : Int) ≤ point then
    digits ++ List.replicate (point.toNat - digits.length) '0' ++ ['.', '0']
  else digits.take point.toNat ++ '.' :: digits.drop point.toNat

/-- One digit, the others behind a point, and the exponent. -/
def writeScientific (digits : List Char) (point : Int) : List Char :=
  let mantissa :=
    match digits with
    | [] => []
    | [digit] => [digit]
    | first :: rest => first :: '.' :: rest
  mantissa ++ writeExponent (point - 1)

/-- A positive numeral: positional from `10 ^ -4` up to, but not including, `10 ^ 16`. -/
def writeNumeral (numeral : Binary64.Numeral) : List Char :=
  let digits := decimal numeral.digits
  let point := digits.length + numeral.scale
  let significant := trimZeros digits
  if -4 < point && point ≤ 16 then writePositional significant point
  else writeScientific significant point

/-- A binary number, with the given words for infinity and for what is not a number. -/
def writeBinary (infinity notANumber : String) : Binary64 → String
  | .notANumber => notANumber
  | .infinite negative => if negative then "-" ++ infinity else infinity
  | .finite negative mantissa exponent =>
      let digits :=
        if mantissa = 0 then ['0', '.', '0'] else writeNumeral (Binary64.shortest mantissa exponent)
      String.ofList (if negative then '-' :: digits else digits)

/-! ## The digits of a natural number -/

theorem isDigit_of_mem_decimal {value : Nat} {digit : Char} (occurs : digit ∈ decimal value) :
    digit.isDigit :=
  Nat.isDigit_of_mem_toDigits (by decide) (by decide) occurs

theorem decimal_ne_nil (value : Nat) : decimal value ≠ [] :=
  Nat.toDigits_ne_nil

/-- Only zero is written with a zero in front. -/
theorem eq_zero_of_head?_decimal {value : Nat} (zero : (decimal value).head? = some '0') :
    value = 0 := by
  induction value using Nat.strongRecOn with
  | ind value ih =>
      by_cases small : value < 10
      · have digits : ∀ digit < 10, Nat.digitChar digit = '0' → digit = 0 := by decide
        rw [decimal, Nat.toDigits_of_lt_base small] at zero
        exact digits value small (Option.some_inj.mp zero)
      · have parts : decimal value = decimal (value / 10) ++ [Nat.digitChar (value % 10)] :=
          Nat.toDigits_of_base_le (by decide) (by omega)
        rw [parts, List.head?_append,
          Option.or_of_isSome (List.isSome_head?.mpr (decimal_ne_nil _))] at zero
        have := ih (value / 10) (by omega) zero
        omega

end Number

end Typeloom
