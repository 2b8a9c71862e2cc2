import Reckoner.Answer.Grouping
import Reckoner.Decimal.Places

/-!
# Number text of an answer

A number is written in one of four ways: as an integer in another base, with a fixed count of
places, with twelve significant digits, or, outside the range from `10 ^ (-9)` up to
`10 ^ 15`, with a power of ten.
-/

namespace Reckoner.Answer

open Decimal (signed)

/-- The significant digits of an inexact answer. -/
def significantCount : Nat := 12

/-- Takes off the zeros at the end of a fraction, and the point with them if nothing is left
behind it. A text without a point keeps its zeros. -/
def trimFraction (text : List Char) : List Char :=
  if text.contains '.' then
    ((text.reverse.dropWhile (· == '0')).dropWhile (· == '.')).reverse
  else text

/-- The magnitudes written without a power of ten. -/
def isPlainMagnitude (num den : Nat) : Bool :=
  num == 0 || (den ≤ num * Nat.pow 10 9 && num < Nat.pow 10 15 * den)

/-- The places that twelve significant digits take after the point, at most fifteen. Counted by an
approximate logarithm they would give the same text (`significantText_eq_of_logarithm`). -/
def significantPlaces (num den : Nat) : Nat :=
  if num = 0 then 11 else min 15 (11 - Decimal.exponentOf num den).toNat

/-- Twelve significant digits without zeros at the end. Zero has no sign. -/
def significantText (x : Float) : List Char :=
  match Binary64.ofFloat x with
  | .finite negative mantissa exponent =>
      let places := significantPlaces (Binary64.numerator mantissa exponent)
        (Binary64.denominator exponent)
      let magnitude := trimFraction (Decimal.fixedMagnitude places mantissa exponent)
      if magnitude = ['0'] then magnitude else signed negative magnitude
  | _ => []

/-- The digits of a decimal with a point after the first, without zeros at the end. -/
def mantissaText (d : Decimal) : List Char :=
  trimFraction (Decimal.withPoint d.coefficient (significantCount - 1))

/-- An integer with its sign. -/
def integerText (n : Int) : List Char :=
  signed (n < 0) (Decimal.digits n.natAbs)

/-- Twelve significant digits with a power of ten, for a positive quotient. -/
def exponentialText (print : PrintSettings) (num den : Nat) : List Char :=
  let d := Decimal.significantDigits (significantCount - 1) num den
  let power := integerText d.leadingExponent
  mantissaText d ++
    match print.exponentDisplay with
    | .lowercase => 'e' :: power
    | .uppercase => 'E' :: power
    | .powerOfTen => (if print.useUnicodeSigns then '×' else '*') :: "10^".toList ++ power

/-- The mark of a base that has one. -/
def baseMark (display : BaseDisplay) (base : Nat) : List Char :=
  match display with
  | .bare => []
  | .marked =>
      if base = 2 then "0b".toList
      else if base = 8 then "0o".toList
      else if base = 16 then "0x".toList
      else []

/-- A natural number in base 2, 8 or 16, with capital digits, and otherwise in base ten. -/
def digitsInBase (base n : Nat) : List Char :=
  if base = 2 ∨ base = 8 ∨ base = 16 then (Nat.toDigits base n).map Char.toUpper
  else Decimal.digits n

/-- A minus sign as the settings ask. -/
def typographic (print : PrintSettings) (text : List Char) : List Char :=
  match text with
  | '-' :: rest => if print.useUnicodeSigns then '−' :: rest else text
  | _ => text

/-- A finite number, its minus sign not yet typographic. -/
def finiteText (print : PrintSettings) (decimals : Option Nat) (x : Float) (negative : Bool)
    (mantissa : Nat) (exponent : Int) : List Char :=
  let value := Binary64.finite negative mantissa exponent
  let num := Binary64.numerator mantissa exponent
  let den := Binary64.denominator exponent
  if print.base ≠ 10 ∧ value.isIntegral ∧ value.wholePart < Nat.pow 2 53 then
    signed (negative && mantissa != 0)
      (baseMark print.baseDisplay print.base ++ digitsInBase print.base value.wholePart)
  else
    match decimals with
    | some places => grouped print (Decimal.fixed places x)
    | none =>
        if isPlainMagnitude num den then grouped print (significantText x)
        else signed negative (exponentialText print num den)

/-- The text of a number. `decimals` asks for a fixed count of digits after the point. -/
def numberChars (print : PrintSettings) (decimals : Option Nat) (x : Float) : List Char :=
  match Binary64.ofFloat x with
  | .nan => "undefined".toList
  | .infinite negative =>
      typographic print
        (signed negative (if print.useUnicodeSigns then "∞" else "infinity").toList)
  | .finite negative mantissa exponent =>
      typographic print (finiteText print decimals x negative mantissa exponent)

/-- `numberChars` as a string. -/
def number (print : PrintSettings) (decimals : Option Nat) (x : Float) : String :=
  String.ofList (numberChars print decimals x)

end Reckoner.Answer
