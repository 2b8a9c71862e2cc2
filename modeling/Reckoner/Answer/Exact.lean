import Reckoner.Answer.Number

/-!
# Exact answers

An exact answer whose decimal expansion repeats is followed by dots. It counts as repeating when the
value is a fraction with a denominator of at most a thousand, up to float noise, and
the least such denominator divides no power of ten.
-/

namespace Reckoner.Answer

/-- The largest denominator tried. -/
def maxDenominator : Nat := 1000

/-- Whether `x` is a fraction over `q`, up to float noise: its multiple is within a billionth of
an integer, relative to the multiple where that is above one. -/
def isFractionOver (x : Float) (q : Nat) : Bool :=
  let scaled := x * Float.ofNat q
  let size := if scaled.abs ≤ 1.0 then 1.0 else scaled.abs
  (scaled - roundAwayFromZero scaled).abs ≤ 1e-9 * size

/-- The least denominator from 2 on over which `x` is a fraction. -/
def leastDenominator? (x : Float) : Option Nat :=
  (List.range' 2 (maxDenominator - 1)).find? (isFractionOver x)

/-- Whether a denominator divides no power of ten. One of at most a thousand that divides a
power of ten divides the ninth. -/
def isRepeatingDenominator (q : Nat) : Bool :=
  Nat.pow 10 9 % q != 0

/-- Whether the decimal expansion counts as repeating. -/
def repeats (x : Float) : Bool :=
  match Binary64.ofFloat x with
  | .finite negative mantissa exponent =>
      !(Binary64.finite negative mantissa exponent).isIntegral &&
        isPlainMagnitude (Binary64.numerator mantissa exponent) (Binary64.denominator exponent) &&
        (leastDenominator? x).any isRepeatingDenominator
  | _ => false

/-- The dots after a repeating expansion. -/
def repetitionMark (unicode : Bool) : String :=
  if unicode then "…" else "..."

/-- The text of an exact answer. -/
def exact (print : PrintSettings) (x : Float) : String :=
  let text := number print none x
  if print.indicateInfiniteSeries && print.base == 10 && repeats x then
    text ++ repetitionMark print.useUnicodeSigns
  else text

end Reckoner.Answer
