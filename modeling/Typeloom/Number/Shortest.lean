import Typeloom.Number.Binary64

/-!
# Shortest decimal numerals

A finite binary number is written with the fewest decimal digits that are read back as the same
number, and among those with the digits nearest to its value.  The numbers that are read back as
`mantissa * 2 ^ exponent` fill an interval around it; its ends belong to it exactly if the
mantissa is even.  For one digit, two digits and so on the two neighbours of the value on that
decimal grid are tried.
-/

namespace Typeloom

namespace Binary64

/-- A positive decimal numeral: `digits * 10 ^ scale`. -/
structure Numeral where
  /-- The digits, read as one number. -/
  digits : Nat
  /-- The power of ten of the last digit. -/
  scale : Int
deriving DecidableEq, Repr, Inhabited

/-- The values that are read back as one number, as fractions over a common denominator. -/
structure Interval where
  low : Nat
  value : Nat
  high : Nat
  denominator : Nat
  /-- Whether the ends belong to the interval. -/
  closed : Bool
deriving Repr, Inhabited

/-- The interval of the values that are rounded to a positive number. -/
def interval (mantissa : Nat) (exponent : Int) : Interval :=
  let below := if mantissa = Nat.pow 2 52 && leastExponent < exponent then 1 else 2
  let factor := if 0 ≤ exponent then Nat.pow 2 exponent.toNat else 1
  let denominator := if 0 ≤ exponent then 4 else 4 * Nat.pow 2 (-exponent).toNat
  { low := (4 * mantissa - below) * factor
    value := 4 * mantissa * factor
    high := (4 * mantissa + 2) * factor
    denominator := denominator
    closed := mantissa % 2 = 0 }

/-- Compare `digits * 10 ^ scale` with a fraction: both sides over one denominator. -/
def overCommon (digits : Nat) (scale : Int) (numerator denominator : Nat) : Nat × Nat :=
  if 0 ≤ scale then (digits * Nat.pow 10 scale.toNat * denominator, numerator)
  else (digits * denominator, numerator * Nat.pow 10 (-scale).toNat)

def Interval.contains (range : Interval) (digits : Nat) (scale : Int) : Bool :=
  let (left, low) := overCommon digits scale range.low range.denominator
  let (right, high) := overCommon digits scale range.high range.denominator
  if range.closed then low ≤ left && right ≤ high else low < left && right < high

/-- The distance of a numeral from the value of an interval, up to a factor that depends on the
scale alone. -/
def Interval.distance (range : Interval) (digits : Nat) (scale : Int) : Nat :=
  let (left, value) := overCommon digits scale range.value range.denominator
  (left - value) + (value - left)

/-- The greatest number of tens `10 ^ power` that does not exceed a fraction, looked for from
an estimate downward. -/
def powerOfTen (numerator denominator : Nat) : Nat → Int → Int
  | 0, power => power
  | steps + 1, power =>
      let (left, right) := overCommon 1 power numerator denominator
      if left ≤ right then power else powerOfTen numerator denominator steps (power - 1)

/-- The greatest `power` with `10 ^ power` at most the fraction. -/
def magnitude (numerator denominator : Nat) : Int :=
  let binary : Int := (Nat.log2 numerator : Int) - Nat.log2 denominator
  powerOfTen numerator denominator 4 (binary * 30103 / 100000 + 1)

/-- The numeral of an interval on the grid `10 ^ scale`, if one of the value's two neighbours lies
in the interval; the nearer one if both do, the one with the even last digit if both are equally
near. -/
def Interval.onGrid (range : Interval) (scale : Int) : Option Numeral :=
  let below :=
    if 0 ≤ scale then range.value / (range.denominator * Nat.pow 10 scale.toNat)
    else range.value * Nat.pow 10 (-scale).toNat / range.denominator
  let above := below + 1
  match range.contains below scale && 0 < below, range.contains above scale with
  | false, false => none
  | true, false => some ⟨below, scale⟩
  | false, true => some ⟨above, scale⟩
  | true, true =>
      let lower := range.distance below scale
      let upper := range.distance above scale
      if lower < upper || (lower = upper && below % 2 = 0) then some ⟨below, scale⟩
      else some ⟨above, scale⟩

/-- Try grids that become finer by one decimal place, at most `grids` of them. -/
def Interval.search (range : Interval) : Nat → Int → Numeral
  | 0, scale => ⟨range.value * Nat.pow 10 (-scale).toNat / range.denominator, scale⟩
  | grids + 1, scale =>
      match range.onGrid scale with
      | some numeral => numeral
      | none => range.search grids (scale - 1)

/-- The shortest numeral that is read back as a positive finite number. -/
def shortest (mantissa : Nat) (exponent : Int) : Numeral :=
  let range := interval mantissa exponent
  range.search 17 (magnitude range.value range.denominator)

end Binary64

end Typeloom
