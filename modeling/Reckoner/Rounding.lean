/-!
# Rounding a quotient

Every decimal text in this library is cut from an exact quotient of natural
numbers. This module fixes the one rule by which such a quotient becomes an
integer: to the nearest, and from the middle to the even neighbour.
-/

namespace Reckoner

/-- The integer nearest to `num / den`; a half goes to the even neighbour. -/
def roundHalfEven (num den : Nat) : Nat :=
  let quotient := num / den
  let remainder := num % den
  if 2 * remainder < den then quotient
  else if den < 2 * remainder then quotient + 1
  else if quotient % 2 = 0 then quotient
  else quotient + 1

end Reckoner
