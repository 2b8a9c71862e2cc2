import Reckoner.Decimal.Literal
import Reckoner.Decimal.Plain
import Reckoner.Json

/-!
# Numbers of the interchange format

How a numeral becomes a number, and how a number is written. Integers that fit 64 bits are exact.
Every other numeral becomes a double by a fixed rule: a significand of at most 64 bits is
gathered from its digits, and one division or multiplication by a power of ten follows. That
is quick and nearly, but not always, the nearest double.
-/

namespace Reckoner

namespace JsonNumber

/-- A numeral: digits before the point, digits after it if there is a point, and the exponent. -/
structure Numeral where
  isNegative : Bool
  whole : List Char
  fraction : Option (List Char)
  exponent : Option Int

/-- A significand and the power of ten it stands at. -/
structure Significand where
  value : Nat
  exponent : Int

/-- The first significand that does not fit. -/
def significandBound : Nat := Nat.pow 2 64

/-- The value of a digit. -/
def digitValue (c : Char) : Nat :=
  c.toNat - '0'.toNat

/-- Gathers digits before the point. From the first that does not fit, digits only raise the
exponent. -/
def Significand.addWhole (s : Significand) : List Char → Significand
  | [] => s
  | c :: rest =>
      let value := 10 * s.value + digitValue c
      if value < significandBound then Significand.addWhole { s with value } rest
      else { s with exponent := s.exponent + (rest.length + 1) }

/-- Gathers digits after the point. From the first that does not fit, digits are dropped. -/
def Significand.addFraction (s : Significand) : List Char → Significand
  | [] => s
  | c :: rest =>
      let value := 10 * s.value + digitValue c
      if value < significandBound then
        Significand.addFraction ⟨value, s.exponent - 1⟩ rest
      else s

/-- The double nearest to a power of ten with an exponent up to 308. -/
def tenToThe (exponent : Nat) : Float :=
  Decimal.toFloat ⟨1, exponent⟩

/-- Scales a double by a power of ten, in steps of at most 308. A result past the largest double is
refused, and zero stays zero at any exponent. -/
def scaled? (x : Float) (exponent : Int) : Option Float :=
  if exponent.natAbs ≤ 308 then
    if 0 ≤ exponent then
      let product := x * tenToThe exponent.natAbs
      if product.isInf then none else some product
    else some (x / tenToThe exponent.natAbs)
  else if x == 0.0 then some x
  else if h : 0 ≤ exponent then none
  else scaled? (x / tenToThe 308) (exponent + 308)
termination_by (-exponent).toNat
decreasing_by omega

/-- The double of a significand. -/
def Significand.toFloat? (s : Significand) (isNegative : Bool) : Option Float :=
  (scaled? (Float.ofNat s.value) s.exponent).map fun x => if isNegative then -x else x

/-- The number that a numeral stands for, unless it is too large. Minus zero is a double, and so is
an integer that does not fit 64 bits. -/
def ofNumeral? (n : Numeral) : Option JsonNumber :=
  let significand := Significand.addWhole ⟨0, 0⟩ n.whole
  match n.fraction, n.exponent with
  | none, none =>
      if significand.exponent = 0 then
        if !n.isNegative then some (.natural significand.value)
        else if 0 < significand.value ∧ significand.value ≤ Nat.pow 2 63 then
          some (.negative significand.value)
        else some (.float (-Float.ofNat significand.value))
      else (significand.toFloat? n.isNegative).map .float
  | fraction, exponent =>
      let significand := significand.addFraction (fraction.getD [])
      let shifted := { significand with exponent := significand.exponent + exponent.getD 0 }
      (shifted.toFloat? n.isNegative).map .float

/-! ## Writing -/

/-- The least power of ten of a leading digit that is written positionally. -/
def leastPositional : Int := -5

/-- The powers of ten from this one on are written with an exponent. -/
def positionalBound : Int := 16

/-- A decimal with an exponent that always has a sign. -/
def exponentForm (d : Decimal) : List Char :=
  let mantissa :=
    match Decimal.digits d.coefficient with
    | first :: second :: others => first :: '.' :: second :: others
    | single => single
  let power := d.leadingExponent
  mantissa ++ 'e' :: (if power < 0 then '-' else '+') :: Decimal.digits power.natAbs

/-- A decimal as the format writes a double: positional, with a fraction of zero where there is
none, or with an exponent outside the range for that. -/
def floatForm (d : Decimal) : List Char :=
  if leastPositional ≤ d.leadingExponent ∧ d.leadingExponent < positionalBound then
    if 0 ≤ d.exponent then d.positional ++ ".0".toList else d.positional
  else exponentForm d

/-- The text of a double; what is no finite number is written as nothing. Of two equally short and
equally near texts the one with the even last digit is taken. -/
def floatText (x : Float) : List Char :=
  match Binary64.ofFloat x with
  | .finite isNegative mantissa exponent =>
      Decimal.signed isNegative
        (if mantissa = 0 then "0.0".toList
          else floatForm (Decimal.shortest .even mantissa exponent))
  | _ => "null".toList

/-- The text of a number. -/
def text : JsonNumber → String
  | .natural n => String.ofList (Decimal.digits n)
  | .negative n => String.ofList ('-' :: Decimal.digits n)
  | .float x => String.ofList (floatText x)

/-- The double nearest to a number that is an integer, or the double itself. -/
def toFloat : JsonNumber → Float
  | .natural n => Float.ofNat n
  | .negative n => -Float.ofNat n
  | .float x => x

end JsonNumber

end Reckoner
