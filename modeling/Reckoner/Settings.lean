/-!
# Settings

How an expression is read and how its answer is written. A session holds one value of
`Settings`, and every call on it sees the changes that earlier calls made.
-/

namespace Reckoner

/-- The unit in which angles are given to and taken from the trigonometric functions. -/
inductive AngleUnit where
  | unspecified
  | radians
  | degrees
  | gradians
deriving DecidableEq, Inhabited

/-- Whether an integer in another base carries a mark such as `0x`. -/
inductive BaseDisplay where
  | bare
  | marked
deriving DecidableEq, Inhabited

/-- Whether the digits before the point are set in groups of three. -/
inductive DigitGrouping where
  | ungrouped
  | thousands
deriving DecidableEq, Inhabited

/-- How the power of ten of a very large or very small number is written. -/
inductive ExponentDisplay where
  /-- as in `1.5e12` -/
  | lowercase
  /-- as in `1.5E12` -/
  | uppercase
  /-- as in `1.5*10^12` -/
  | powerOfTen
deriving DecidableEq, Inhabited

/-- How an approximate answer shows its uncertainty. -/
inductive IntervalDisplay where
  /-- by the digits given -/
  | significantDigits
  /-- as an interval with two ends -/
  | interval
  /-- as a half-width after the value -/
  | plusMinus
deriving DecidableEq, Inhabited

/-- How an expression is read. -/
structure ParseSettings where
  angleUnit : AngleUnit := .radians
  /-- Whether a name without a meaning stands for itself. -/
  unknownsEnabled : Bool := false
  /-- Whether a comma is the decimal mark and a semicolon parts arguments. -/
  decimalComma : Bool := false
deriving DecidableEq, Inhabited

/-- How an answer is written. -/
structure PrintSettings where
  /-- The base of integer answers: 2, 8, 10 or 16. -/
  base : Nat := 10
  baseDisplay : BaseDisplay := .bare
  digitGrouping : DigitGrouping := .ungrouped
  exponentDisplay : ExponentDisplay := .lowercase
  intervalDisplay : IntervalDisplay := .significantDigits
  useUnicodeSigns : Bool := false
  /-- Whether an exact answer with a repeating expansion is marked, as in `0.333...`. -/
  indicateInfiniteSeries : Bool := true
deriving DecidableEq, Inhabited

/-- All settings of a session. -/
structure Settings where
  parse : ParseSettings := {}
  print : PrintSettings := {}
deriving DecidableEq, Inhabited

/-- Archimedes' constant. -/
def circleRatio : Float := 3.141592653589793

/-- The size of one unit of angle in radians. -/
def AngleUnit.toRadians : AngleUnit → Float
  | .unspecified => 1.0
  | .radians => 1.0
  | .degrees => circleRatio / 180.0
  | .gradians => circleRatio / 200.0

end Reckoner
