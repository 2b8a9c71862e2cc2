import Reckoner.Binary64
import Reckoner.Decimal

/-!
# Reading decimals

The double nearest to a decimal. The exponents a text can hold are unbounded, so magnitudes
that are certainly infinite or certainly zero are settled before any power of ten is
computed.
-/

namespace Reckoner.Decimal

/-- The double nearest to the decimal: infinite from the first magnitude that rounds past
the largest finite double, zero below half the least positive one. -/
def toFloat (d : Decimal) : Float :=
  let size := d.exponent + (digits d.coefficient).length
  if d.coefficient = 0 ∨ size < -325 then Float.ofBits 0
  else if 310 < size then Float.ofBits (UInt64.ofNat Binary64.infinityBits)
  else
    Binary64.nearest (d.coefficient * Nat.pow 10 d.exponent.toNat)
      (Nat.pow 10 (-d.exponent).toNat)

/-- The natural number written by a list of decimal digits. -/
def ofDigits (text : List Char) : Nat :=
  Nat.ofDigitChars 10 text 0

/-- The decimal written as `whole.fraction`, times a power of ten. -/
def ofParts (whole fraction : List Char) (exponent : Int) : Decimal :=
  ⟨ofDigits (whole ++ fraction), exponent - fraction.length⟩

end Reckoner.Decimal
