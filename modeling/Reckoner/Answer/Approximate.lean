import Reckoner.Answer.Number

/-!
# Approximate answers

An approximate answer shows how far it can be trusted. Its precision is a power of ten: the value
is known to half a unit of it.
-/

namespace Reckoner.Answer

/-- `base ^ n` by repeated squaring, times `acc`. -/
def squaringPower (base acc : Float) (n : Nat) : Float :=
  let acc := if n % 2 = 1 then acc * base else acc
  if h : n < 2 then acc else squaringPower (base * base) acc (n / 2)
termination_by n
decreasing_by omega

/-- A power of ten. A negative one is the reciprocal of the positive one. -/
def powerOfTen (p : Int) : Float :=
  let power := squaringPower 10.0 1.0 p.natAbs
  if p < 0 then 1.0 / power else power

/-- Half a unit at the given power of ten. -/
def halfWidth (precision : Int) : Float :=
  0.5 * powerOfTen precision

/-- The places that a precision leaves after the point. -/
def placesOf (precision : Int) : Nat :=
  (-precision).toNat

/-- The text of an approximate answer. The half-width and the ends of an interval have one place
more than the value. Without a precision there is no interval to show. -/
def approximate (print : PrintSettings) (precision : Option Int) (x : Float) : String :=
  let unicode := print.useUnicodeSigns
  let plain := (if unicode then "≈ " else "approx. ") ++ number print (precision.map placesOf) x
  match print.intervalDisplay, precision with
  | .plusMinus, some p =>
      number print (some (placesOf p)) x ++ (if unicode then " ± " else " +/- ") ++
        number print (some (placesOf p + 1)) (halfWidth p)
  | .interval, some p =>
      "interval(" ++ number print (some (placesOf p + 1)) (x - halfWidth p) ++ ", " ++
        number print (some (placesOf p + 1)) (x + halfWidth p) ++ ")"
  | _, _ => plain

end Reckoner.Answer
