import Reckoner.Answer.Approximate
import Reckoner.Answer.Exact
import Reckoner.Proofs.Decimal.PlainText

/-!
# Answers have a text

A number is written in many ways: with groups, without the zeros at its end, in another base, as an
interval, or as what it is not. Whatever the settings ask for, and whatever the number is, at least
one character is left.
-/

namespace Reckoner

namespace Answer

open Decimal

variable {text : List Char}

/-- The first character stays if it is no point. The zeros that are taken off all stand behind the
point, and then only points are. -/
theorem trimFraction_ne_nil {first : Char} (hfirst : first ≠ '.') (rest : List Char) :
    trimFraction (first :: rest) ≠ [] := by
  unfold trimFraction
  split
  · next hpoint =>
    let kept := (first :: rest).reverse.dropWhile (· == '0')
    have hkept : kept ≠ [] := by
      intro hnone
      have hzeros := List.dropWhile_eq_nil_iff.mp hnone '.'
        (List.mem_reverse.mpr (List.contains_iff_mem.mp hpoint))
      exact absurd hzeros (by decide)
    have hsuffix : kept <:+ rest.reverse ++ [first] := by
      rw [← List.reverse_cons]
      exact List.dropWhile_suffix _
    have hmem : first ∈ kept := by
      obtain hnone | ⟨before, heq, -⟩ := List.suffix_concat_iff.mp hsuffix
      · exact absurd hnone hkept
      · rw [heq]
        exact List.mem_append_right before List.mem_cons_self
    intro hnone
    have hpoints := List.dropWhile_eq_nil_iff.mp (List.reverse_eq_nil_iff.mp hnone) first hmem
    exact hfirst (beq_iff_eq.mp hpoints)
  · exact List.cons_ne_nil _ _

/-- Positional notation without the zeros at its end is still a text. -/
theorem trimFraction_withPoint_ne_nil (scaled places : Nat) :
    trimFraction (withPoint scaled places) ≠ [] := by
  obtain ⟨first, rest, htext, hdigit⟩ := withPoint_begins scaled places
  rw [htext]
  refine trimFraction_ne_nil ?_ rest
  rintro rfl
  exact absurd hdigit (by decide)

/-- Separators take no digit away. -/
theorem groupedRun_ne_nil (separator : Char) (htext : text ≠ []) :
    groupedRun separator text ≠ [] := by
  unfold groupedRun
  split
  · exact absurd rfl htext
  · exact List.cons_ne_nil _ _
  · split <;> exact List.cons_ne_nil _ _

/-- Grouping takes no character away. -/
theorem groupedNumeral_ne_nil (separator : Char) (htext : text ≠ []) :
    groupedNumeral separator text ≠ [] := by
  intro hnone
  obtain ⟨hrun, hrest⟩ := List.append_eq_nil_iff.mp hnone
  have hbefore : text.takeWhile (· != '.') = [] := by
    by_contra hsome
    exact groupedRun_ne_nil separator hsome hrun
  rw [← List.takeWhile_append_dropWhile (p := (· != '.')) (l := text), hbefore, hrest] at htext
  exact htext rfl

/-- A number text is still one when its digits are grouped. -/
theorem grouped_ne_nil (print : PrintSettings) (htext : text ≠ []) : grouped print text ≠ [] := by
  unfold grouped
  split
  · exact htext
  · dsimp only
    split
    · exact List.cons_ne_nil _ _
    · exact groupedNumeral_ne_nil _ htext

/-- A minus sign becomes another one. -/
theorem typographic_ne_nil (print : PrintSettings) (htext : text ≠ []) :
    typographic print text ≠ [] := by
  unfold typographic
  split
  · split <;> exact List.cons_ne_nil _ _
  · exact htext

/-- There are digits in every base. -/
theorem digitsInBase_ne_nil (base n : Nat) : digitsInBase base n ≠ [] := by
  unfold digitsInBase
  split
  · exact fun hnone => Nat.toDigits_ne_nil (List.map_eq_nil_iff.mp hnone)
  · exact Nat.toDigits_ne_nil

/-- A finite number has significant digits. -/
theorem significantText_ne_nil {x : Float} {negative : Bool} {mantissa : Nat} {exponent : Int}
    (hx : Binary64.ofFloat x = .finite negative mantissa exponent) :
    significantText x ≠ [] := by
  unfold significantText
  rw [hx]
  dsimp only
  split
  · exact trimFraction_withPoint_ne_nil _ _
  · exact signed_ne_nil (trimFraction_withPoint_ne_nil _ _) negative

/-- A finite number has a text in all four ways to write it. -/
theorem finiteText_ne_nil (print : PrintSettings) (decimals : Option Nat) {x : Float}
    {negative : Bool} {mantissa : Nat} {exponent : Int}
    (hx : Binary64.ofFloat x = .finite negative mantissa exponent) :
    finiteText print decimals x negative mantissa exponent ≠ [] := by
  unfold finiteText
  dsimp only
  split
  · exact signed_ne_nil (List.append_ne_nil_of_right_ne_nil _ (digitsInBase_ne_nil _ _)) _
  · split
    · next places =>
      refine grouped_ne_nil print ?_
      unfold fixed
      rw [hx]
      exact signed_ne_nil (withPoint_ne_nil _ places) negative
    · split
      · exact grouped_ne_nil print (significantText_ne_nil hx)
      · exact signed_ne_nil
          (List.append_ne_nil_of_left_ne_nil (trimFraction_withPoint_ne_nil _ _) _) negative

/-- Every number has a text. -/
theorem number_ne_empty (print : PrintSettings) (decimals : Option Nat) (x : Float) :
    number print decimals x ≠ "" := by
  intro hnone
  have hchars : numberChars print decimals x = [] := String.ofList_eq_empty_iff.mp hnone
  unfold numberChars at hchars
  cases hx : Binary64.ofFloat x with
  | nan =>
    rw [hx] at hchars
    have htext : "undefined".toList ≠ [] := by decide
    exact htext hchars
  | infinite negative =>
    rw [hx] at hchars
    refine typographic_ne_nil print (signed_ne_nil ?_ negative) hchars
    split <;> decide
  | finite negative mantissa exponent =>
    rw [hx] at hchars
    exact typographic_ne_nil print (finiteText_ne_nil print decimals hx) hchars

/-- An exact answer has a text, with dots or without. -/
theorem exact_ne_empty (print : PrintSettings) (x : Float) : exact print x ≠ "" := by
  unfold exact
  dsimp only
  split
  · exact fun hnone => number_ne_empty print none x (String.append_eq_empty_iff.mp hnone).1
  · exact number_ne_empty print none x

/-- An approximate answer has a text, with an interval or without. -/
theorem approximate_ne_empty (print : PrintSettings) (precision : Option Int) (x : Float) :
    approximate print precision x ≠ "" := by
  unfold approximate
  dsimp only
  split
  · intro hnone
    obtain ⟨hbefore, -⟩ := String.append_eq_empty_iff.mp hnone
    exact number_ne_empty print _ x (String.append_eq_empty_iff.mp hbefore).1
  · intro hnone
    exact absurd (String.append_eq_empty_iff.mp hnone).2 (by decide)
  · exact fun hnone => number_ne_empty print _ x (String.append_eq_empty_iff.mp hnone).2

end Answer

end Reckoner
