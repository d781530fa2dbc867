import Typeloom.Number.Binary64

/-!
# Quantities

The exact values of integers of any size and of binary numbers, put in one order.  An integer is
not rounded before it is compared with a binary number.
-/

namespace Typeloom

inductive Quantity where
  /-- `significand * 2 ^ exponent`. -/
  | finite (significand exponent : Int)
  | infinite (negative : Bool)
  | notANumber
deriving DecidableEq, Repr, Inhabited

namespace Quantity

def ofInteger (integer : Int) : Quantity :=
  finite integer 0

/-- The value of a binary number. -/
def ofBinary : Binary64 → Quantity
  | .finite negative mantissa exponent => finite (if negative then -mantissa else mantissa) exponent
  | .infinite negative => infinite negative
  | .notANumber => notANumber

/-- Whether a quantity is less than another one.  What is not a number is not, and nothing is less
than it. -/
def lessThan (left right : Quantity) : Bool :=
  match left, right with
  | notANumber, _ => false
  | _, notANumber => false
  | infinite negative, infinite negative' => negative && !negative'
  | infinite negative, _ => negative
  | _, infinite negative => !negative
  | finite significand exponent, finite significand' exponent' =>
      let low := min exponent exponent'
      significand * Int.pow 2 (exponent - low).toNat <
        significand' * Int.pow 2 (exponent' - low).toNat

end Quantity

end Typeloom
