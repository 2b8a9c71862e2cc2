/-!
# Decimal numerals

A decimal is a natural coefficient at a power of ten. This module writes one in
positional notation and finds the power of ten at which a quotient starts.
-/

namespace Reckoner

/-- The number `coefficient * 10 ^ exponent`. -/
structure Decimal where
  coefficient : Nat
  exponent : Int
deriving DecidableEq, Inhabited

namespace Decimal

/-- The decimal digits of a natural number, at least one. -/
def digits (n : Nat) : List Char :=
  Nat.toDigits 10 n

/-- The digits of `n`, filled up with zeros on the left to at least `width` digits. -/
def padded (width n : Nat) : List Char :=
  List.replicate (width - (digits n).length) '0' ++ digits n

/-- Writes `scaled / 10 ^ places` with exactly `places` digits after the point, and
without a point when there are none. -/
def withPoint (scaled places : Nat) : List Char :=
  if places = 0 then digits scaled
  else digits (scaled / Nat.pow 10 places) ++ '.' :: padded places (scaled % Nat.pow 10 places)

/-- Positional notation: all zeros written out and no exponent. -/
def positional (d : Decimal) : List Char :=
  withPoint (d.coefficient * Nat.pow 10 d.exponent.toNat) (-d.exponent).toNat

/-- The power of ten of the leading digit of a nonzero decimal. -/
def leadingExponent (d : Decimal) : Int :=
  d.exponent + (digits d.coefficient).length - 1

/-- Puts a minus sign before the text of a negative number. -/
def signed (negative : Bool) (text : List Char) : List Char :=
  if negative then '-' :: text else text

/-- The exponent `e` with `10 ^ e ≤ num / den < 10 ^ (e + 1)`, for a positive quotient.
Below one, it is counted by the digits of the reciprocal. -/
def exponentOf (num den : Nat) : Int :=
  if den ≤ num then ((digits (num / den)).length : Int) - 1
  else -((digits ((den - 1) / num)).length : Int)

end Decimal

end Reckoner
