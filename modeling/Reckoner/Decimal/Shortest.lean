import Reckoner.Binary64
import Reckoner.Decimal

/-!
# The shortest decimal that reads back

A double stands for every real number that rounds to it. Among the decimals in
that interval, `Decimal.shortest` takes one with the fewest digits and, of
those, the one nearest to the double itself. All comparisons are between exact
integers.
-/

namespace Reckoner.Decimal

/-- Which of two equally near decimals is taken. -/
inductive Tie where
  /-- the larger -/
  | up
  /-- the one with the even last digit -/
  | even
deriving DecidableEq

/-- The interval of a finite nonzero double and the double itself, as integer
multiples of one power of two: `lower`, `center` and `upper` times
`2 ^ exponent`. The ends belong to the interval when `closed` holds. -/
structure Neighbourhood where
  lower : Nat
  center : Nat
  upper : Nat
  exponent : Int
  closed : Bool

/-- The interval of `mantissa * 2 ^ exponent`. Just above a power of two the spacing
below is half the spacing above. The ends round to an even mantissa. -/
def neighbourhood (mantissa : Nat) (exponent : Int) : Neighbourhood where
  lower := 4 * mantissa - (if mantissa = Nat.pow 2 52 ∧ -1074 < exponent then 1 else 2)
  center := 4 * mantissa
  upper := 4 * mantissa + 2
  exponent := exponent - 2
  closed := mantissa % 2 == 0

/-- The multiple of `10 ^ place` that the interval holds, if it holds one, taken from the
two around the centre: the nearer one when both belong. -/
def Neighbourhood.onGrid (n : Neighbourhood) (tie : Tie) (place : Int) : Option Nat :=
  let scale := Nat.pow 2 n.exponent.toNat * Nat.pow 10 (-place).toNat
  let unit := Nat.pow 10 place.toNat * Nat.pow 2 (-n.exponent).toNat
  let center := n.center * scale
  let below := center / unit
  let above := below + 1
  let holds (a b : Nat) : Bool := if n.closed then a ≤ b else a < b
  let holdsBelow := holds (n.lower * scale) (below * unit)
  let holdsAbove := holds (above * unit) (n.upper * scale)
  let gap := 2 * (center - below * unit)
  match holdsBelow, holdsAbove with
  | false, false => none
  | true, false => some below
  | false, true => some above
  | true, true =>
      if gap < unit then some below
      else if unit < gap then some above
      else match tie with
        | .up => some above
        | .even => if below % 2 = 0 then some below else some above

/-- Tries one more digit at a time. -/
def Neighbourhood.search (n : Neighbourhood) (tie : Tie) : Nat → Int → Decimal
  | 0, place => ⟨n.center * Nat.pow 2 n.exponent.toNat * Nat.pow 10 (-place).toNat /
      (Nat.pow 10 place.toNat * Nat.pow 2 (-n.exponent).toNat), place⟩
  | attempts + 1, place =>
      match n.onGrid tie place with
      | some coefficient => ⟨coefficient, place⟩
      | none => n.search tie attempts (place - 1)

/-- The shortest decimal for `mantissa * 2 ^ exponent`, which must not be zero. The search
starts one place above the leading digit, where only the power of ten itself can
lie, and seventeen digits always suffice. -/
def shortest (tie : Tie) (mantissa : Nat) (exponent : Int) : Decimal :=
  let lead := exponentOf (Binary64.numerator mantissa exponent) (Binary64.denominator exponent)
  (neighbourhood mantissa exponent).search tie 18 (lead + 1)

end Reckoner.Decimal
