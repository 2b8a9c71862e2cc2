import Reckoner.Rounding

/-!
# What a double denotes

A double is a sign, a natural mantissa and a binary exponent, or one of the
three special values. `Binary64.ofFloat` reads that off the 64 bits, so that all
texts and all tests of a double can be computed in exact integer arithmetic, and
`Binary64.nearest` goes back: it is the double closest to a quotient of natural
numbers.
-/

namespace Reckoner

/-- A double as the number it stands for: `±mantissa * 2 ^ exponent`, with the
sign kept apart because zero has one too. -/
inductive Binary64 where
  | nan
  | infinite (negative : Bool)
  | finite (negative : Bool) (mantissa : Nat) (exponent : Int)
deriving DecidableEq, Inhabited

namespace Binary64

/-- The bits of positive infinity; every larger pattern without a sign is no number. -/
def infinityBits : Nat := 2047 * Nat.pow 2 52

/-- Reads the three fields of a bit pattern. Patterns whose exponent field is
zero have no implicit leading bit. -/
def ofBits (bits : Nat) : Binary64 :=
  let negative := decide (bits / Nat.pow 2 63 % 2 = 1)
  let biased : Nat := bits / Nat.pow 2 52 % Nat.pow 2 11
  let fraction : Nat := bits % Nat.pow 2 52
  if biased = 2047 then
    if fraction = 0 then .infinite negative else .nan
  else if biased = 0 then .finite negative fraction (-1074)
  else .finite negative (Nat.pow 2 52 + fraction) ((biased : Int) - 1075)

/-- The number a double stands for. -/
def ofFloat (x : Float) : Binary64 :=
  ofBits x.toBits.toNat

/-- The numerator of `mantissa * 2 ^ exponent` over `denominator exponent`. -/
def numerator (mantissa : Nat) (exponent : Int) : Nat :=
  mantissa * Nat.pow 2 exponent.toNat

/-- The power of two below the fraction bar of `mantissa * 2 ^ exponent`. -/
def denominator (exponent : Int) : Nat :=
  Nat.pow 2 (-exponent).toNat

/-- The power of two below the fraction bar is positive. -/
theorem denominator_pos (exponent : Int) : 0 < denominator exponent :=
  Nat.pow_pos (by decide)

/-! ## The double nearest to a quotient -/

/-- The exponent `k` with `2 ^ k ≤ num / den < 2 ^ (k + 1)`, for a positive quotient. -/
def binaryExponent (num den : Nat) : Int :=
  let estimate := (num.log2 : Int) - den.log2
  if den * Nat.pow 2 estimate.toNat ≤ num * Nat.pow 2 (-estimate).toNat then estimate
  else estimate - 1

/-- The bits, without a sign, of the double nearest to `num / den`, ties going to
the even mantissa. The mantissa is rounded at the spacing of the quotient's own
binade, and never finer than `2 ^ (-1074)`. A mantissa that rounds up to
`2 ^ 53` carries into the exponent field by itself, and what passes the largest
finite double is infinite. -/
def nearestBits (num den : Nat) : Nat :=
  if num = 0 then 0
  else
    let exponent := max (-1074) (binaryExponent num den - 52)
    let mantissa :=
      roundHalfEven (num * Nat.pow 2 (-exponent).toNat) (den * Nat.pow 2 exponent.toNat)
    min infinityBits ((exponent + 1074).toNat * Nat.pow 2 52 + mantissa)

/-- The double nearest to `num / den`. -/
def nearest (num den : Nat) : Float :=
  Float.ofBits (UInt64.ofNat (nearestBits num den))

/-! ## Integers among the doubles -/

/-- Whether the fraction of the number is zero. Infinity and the undefined value
have no fraction. -/
def isIntegral : Binary64 → Bool
  | .finite _ mantissa exponent => mantissa % Nat.pow 2 (-exponent).toNat == 0
  | _ => false

/-- The integer part of the magnitude: what is left of the point. -/
def wholePart : Binary64 → Nat
  | .finite _ mantissa exponent => numerator mantissa exponent / denominator exponent
  | _ => 0

/-- The magnitude rounded to an integer, a half going up. -/
def roundedPart : Binary64 → Nat
  | .finite _ mantissa exponent =>
      (2 * numerator mantissa exponent + denominator exponent) / (2 * denominator exponent)
  | _ => 0

/-- The sign bit of the number; the undefined value has none. -/
def isNegative : Binary64 → Bool
  | .nan => false
  | .infinite negative => negative
  | .finite negative _ _ => negative

end Binary64

/-- Rounds to an integer, a half going away from zero. Infinities and the undefined
value stay as they are. -/
def roundAwayFromZero (x : Float) : Float :=
  match Binary64.ofFloat x with
  | .finite negative mantissa exponent =>
      let magnitude := Float.ofNat (Binary64.finite negative mantissa exponent).roundedPart
      if negative then -magnitude else magnitude
  | _ => x

end Reckoner
