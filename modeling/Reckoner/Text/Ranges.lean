/-!
# Sets of characters

A set of characters given by ranges of code points, ends included.
-/

namespace Reckoner.Text

/-- Whether the character lies in one of the ranges. -/
def inRanges (ranges : List (Nat × Nat)) (c : Char) : Bool :=
  ranges.any fun (first, last) => first ≤ c.toNat && c.toNat ≤ last

end Reckoner.Text
