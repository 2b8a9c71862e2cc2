import Reckoner.Text.Ranges

/-!
# Blanks

White space in the sense of the Unicode property White_Space, and the removal of blanks at
the ends of a text.
-/

namespace Reckoner.Text

/-- The code points with the property White_Space. -/
def blankRanges : List (Nat × Nat) :=
  [(0x9, 0xD), (0x20, 0x20), (0x85, 0x85), (0xA0, 0xA0), (0x1680, 0x1680), (0x2000, 0x200A),
    (0x2028, 0x2029), (0x202F, 0x202F), (0x205F, 0x205F), (0x3000, 0x3000)]

/-- A blank: a character with the property White_Space. -/
def isBlank (c : Char) : Bool :=
  inRanges blankRanges c

/-- Drops the blanks in front. -/
def skipBlanks (text : List Char) : List Char :=
  text.dropWhile isBlank

/-- Drops the blanks at both ends. -/
def trimmed (text : List Char) : List Char :=
  (skipBlanks (skipBlanks text).reverse).reverse

/-- Dropping blanks makes no text longer. -/
theorem length_skipBlanks_le (text : List Char) : (skipBlanks text).length ≤ text.length :=
  (List.dropWhile_suffix isBlank).length_le

/-- What is left of a text without the blanks in front starts with no blank. -/
theorem skipBlanks_head {text rest : List Char} {c : Char} (htext : skipBlanks text = c :: rest) :
    isBlank c = false := by
  unfold skipBlanks at htext
  induction text with
  | nil => simp at htext
  | cons d ds ih =>
    rw [List.dropWhile_cons] at htext
    split at htext
    · exact ih htext
    · next hd => obtain ⟨rfl, rfl⟩ := List.cons.inj htext; simpa using hd

end Reckoner.Text
