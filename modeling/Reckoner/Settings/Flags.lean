import Reckoner.Settings.Command

/-!
# Flags of a call

A call can switch settings on by a word of flag bits. What they switch on stays on for
later calls; bits without a meaning do nothing.
-/

namespace Reckoner

/-- The flag bits given with one call. -/
structure CallFlags where
  bits : UInt32 := 0
deriving DecidableEq, Inhabited

namespace CallFlags

/-- The flags of either word. -/
def union (a b : CallFlags) : CallFlags :=
  ⟨a.bits ||| b.bits⟩

/-- Whether all of some flags, at least one, are given. -/
def contains (all some : CallFlags) : Bool :=
  some.bits != 0 && all.bits &&& some.bits == some.bits

/-- Typographic signs. -/
def unicode : CallFlags := ⟨1⟩

/-- Angles in degrees. -/
def degrees : CallFlags := ⟨2⟩

/-- Names without a meaning stand for themselves. -/
def unknowns : CallFlags := ⟨4⟩

/-- Digits in groups of three. -/
def digitGrouping : CallFlags := ⟨8⟩

/-- A capital letter before the power of ten. -/
def uppercaseExponent : CallFlags := ⟨16⟩

/-- The half-width after an approximate answer. -/
def plusMinus : CallFlags := ⟨32⟩

/-- What each flag switches on. -/
def meanings : List (CallFlags × Assignment) :=
  [(unicode, .unicodeSigns true),
    (degrees, .angleUnit .degrees),
    (unknowns, .unknowns true),
    (digitGrouping, .digitGrouping .thousands),
    (uppercaseExponent, .exponentDisplay .uppercase),
    (plusMinus, .intervalDisplay .plusMinus)]

/-- Switches on what the flags name. -/
def apply (flags : CallFlags) (settings : Settings) : Settings :=
  meanings.foldl
    (fun s (flag, assignment) => if flags.contains flag then assignment.apply s else s) settings

end CallFlags

end Reckoner
