/-!
# Binary floating point numbers

The numbers of the 64-bit binary format as exact values: a sign and `mantissa * 2 ^ exponent`,
with the mantissa below `2 ^ 53`.  A decimal numeral is read as the nearest such number, and as
the one with the even mantissa if two are equally near.
-/

namespace Typeloom

/-- A number of the 64-bit binary format.  A finite number is written with the largest mantissa
below `2 ^ 53` that its exponent allows. -/
inductive Binary64 where
  | finite (negative : Bool) (mantissa : Nat) (exponent : Int)
  | infinite (negative : Bool)
  | notANumber
deriving DecidableEq, Repr, Inhabited

namespace Binary64

def leastExponent : Int := -1074

def greatestExponent : Int := 971

/-- The quotient of two natural numbers, rounded to the nearest, halves to the even one. -/
def roundQuotient (numerator denominator : Nat) : Nat :=
  let quotient := numerator / denominator
  let rest := numerator % denominator
  if denominator < 2 * rest || (2 * rest = denominator && quotient % 2 = 1) then quotient + 1
  else quotient

/-- Numerator and denominator of a fraction divided by `2 ^ exponent`. -/
def scaleDown (numerator denominator : Nat) (exponent : Int) : Nat × Nat :=
  if 0 ≤ exponent then (numerator, denominator * Nat.pow 2 exponent.toNat)
  else (numerator * Nat.pow 2 (-exponent).toNat, denominator)

/-- The exponent with which a positive fraction has a mantissa of 53 bits, or the least exponent
if that is greater. -/
def fractionExponent (numerator denominator : Nat) : Int :=
  let estimate : Int := (Nat.log2 numerator : Int) - Nat.log2 denominator - 52
  let (scaled, divisor) := scaleDown numerator denominator estimate
  max leastExponent (if scaled < divisor * Nat.pow 2 52 then estimate - 1 else estimate)

/-- The number nearest to a fraction. -/
def ofFraction (negative : Bool) (numerator denominator : Nat) : Binary64 :=
  if numerator = 0 then finite negative 0 leastExponent
  else
    let exponent := fractionExponent numerator denominator
    let (scaled, divisor) := scaleDown numerator denominator exponent
    let rounded := roundQuotient scaled divisor
    let (mantissa, exponent) :=
      if rounded = Nat.pow 2 53 then (Nat.pow 2 52, exponent + 1) else (rounded, exponent)
    if greatestExponent < exponent then infinite negative else finite negative mantissa exponent

/-- The number nearest to `digits * 10 ^ scale`, where `digits` is below `10 ^ count` and, unless
it is zero, at least a tenth of that.  Values that are far out of range are settled by their
magnitude. -/
def ofDecimal (negative : Bool) (digits count : Nat) (scale : Int) : Binary64 :=
  if digits = 0 then finite negative 0 leastExponent
  else if 400 < scale + count then infinite negative
  else if scale + count < -400 then finite negative 0 leastExponent
  else if 0 ≤ scale then ofFraction negative (digits * Nat.pow 10 scale.toNat) 1
  else ofFraction negative digits (Nat.pow 10 (-scale).toNat)

def isZero : Binary64 → Bool
  | finite _ mantissa _ => mantissa = 0
  | _ => false

/-- Whether a number has the value of an integer. -/
def equalsInteger : Binary64 → Int → Bool
  | finite negative mantissa exponent, integer =>
      let signed : Int := if negative then -mantissa else mantissa
      if 0 ≤ exponent then signed * Int.pow 2 exponent.toNat = integer
      else signed = integer * Int.pow 2 (-exponent).toNat
  | _, _ => false

/-- Equality of values: the two zeros are equal, and what is not a number equals itself. -/
def sameValue : Binary64 → Binary64 → Bool
  | left, right => (left.isZero && right.isZero) || left = right

end Binary64

end Typeloom
