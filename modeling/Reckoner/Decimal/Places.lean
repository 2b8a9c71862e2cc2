import Reckoner.Binary64
import Reckoner.Decimal

/-!
# Decimals with a fixed count of digits

Two ways to cut a double to a given count of digits: after the point, or in all.
Both round the exact value once, ties to even.
-/

namespace Reckoner.Decimal

/-- The magnitude of a finite double with `places` digits after the point. -/
def fixedMagnitude (places mantissa : Nat) (exponent : Int) : List Char :=
  withPoint (roundHalfEven (Binary64.numerator mantissa exponent * Nat.pow 10 places)
    (Binary64.denominator exponent)) places

/-- A finite double with `places` digits after the point. The sign is that of the
double, also where all digits are zero. Other values have no digits. -/
def fixed (places : Nat) (x : Float) : List Char :=
  match Binary64.ofFloat x with
  | .finite negative mantissa exponent => signed negative (fixedMagnitude places mantissa exponent)
  | _ => []

/-- `num / den`, a positive quotient, rounded to `count + 1` significant digits. A
coefficient that rounds up to one digit more stands for the next power of ten. -/
def significantDigits (count num den : Nat) : Decimal :=
  let lead := exponentOf num den
  let last := lead - count
  let coefficient :=
    roundHalfEven (num * Nat.pow 10 (-last).toNat) (den * Nat.pow 10 last.toNat)
  if coefficient = Nat.pow 10 (count + 1) then ⟨Nat.pow 10 count, last + 1⟩ else ⟨coefficient, last⟩

end Reckoner.Decimal
