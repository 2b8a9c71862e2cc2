import Mathlib.Analysis.SpecialFunctions.Log.Base
import Reckoner.Proofs.Answer.Accuracy

/-!
# Places by an approximate logarithm

The places of twelve significant digits are counted from the power of ten at which a number starts.
A logarithm that is not exact finds the power on the wrong side of the number, if the number is next
to a power of ten, and one place more or fewer is counted. This file proves that the text is the
same: so close to a power of ten the number is rounded to it with either count, and what one text
has behind the other is a zero, which is taken off.
-/

namespace Reckoner

namespace Decimal

variable {num den : Nat}

/-! ## Zeros at the end -/

/-- Ten times a positive number has a zero behind its digits. -/
theorem digits_mul_ten {n : Nat} (hn : 0 < n) : digits (n * 10) = digits n ++ ['0'] := by
  unfold digits
  rw [Nat.toDigits_eq_if (by decide), if_neg (by omega), Nat.mul_div_cancel n (by decide),
    Nat.mul_mod_left]
  rfl

/-- So has ten times a number that is filled up to one digit more. -/
theorem padded_mul_ten (n : Nat) {width : Nat} (hwidth : 0 < width) :
    padded (width + 1) (n * 10) = padded width n ++ ['0'] := by
  rcases Nat.eq_zero_or_pos n with rfl | hn
  · rw [Nat.zero_mul, padded_zero (Nat.succ_pos width), padded_zero hwidth, List.replicate_succ']
  · rw [padded, padded, digits_mul_ten hn, List.length_append, List.length_singleton,
      Nat.add_sub_add_right, List.append_assoc]

/-- With one place more, positional notation ends in one zero more. -/
theorem withPoint_mul_ten (scaled : Nat) {places : Nat} (hplaces : 0 < places) :
    withPoint (scaled * 10) (places + 1) = withPoint scaled places ++ ['0'] := by
  unfold withPoint
  dsimp only [Nat.pow_eq]
  rw [if_neg (Nat.succ_ne_zero places), if_neg hplaces.ne', Nat.pow_succ,
    Nat.mul_div_mul_right _ _ (by decide), Nat.mul_mod_mul_right, padded_mul_ten _ hplaces,
    List.append_assoc, List.cons_append]

/-! ## Rounding to a power of ten -/

/-- An integer that is nearer than a half is the rounded quotient. -/
theorem roundHalfEven_of_near {n : Nat} (hden : 0 < den)
    (hnear : |(num : ℚ) / den - n| < 1 / 2) : roundHalfEven num den = n := by
  obtain ⟨hlow, hhigh⟩ := abs_lt.mp hnear
  exact roundHalfEven_eq hden (by linarith) (by linarith)
    fun _ => ⟨by linarith, by linarith⟩

/-- A quotient that is nearer to a power of ten than half a unit of the last place is rounded to
it. -/
theorem roundHalfEven_near_power {places : Nat} {k : ℤ} (hden : 0 < den) (hk : 0 ≤ k + places)
    (hnear : |(num : ℚ) / den - 10 ^ k| < 1 / 2 * 10 ^ (-(places : ℤ))) :
    roundHalfEven (num * 10 ^ places) den = 10 ^ (k + places).toNat := by
  have hten : (10 : ℚ) ≠ 0 := by norm_num
  have hpower : ((10 ^ (k + places).toNat : ℕ) : ℚ) = 10 ^ k * 10 ^ places := by
    rw [Nat.cast_pow, Nat.cast_ofNat, ← zpow_natCast, Int.toNat_of_nonneg hk, zpow_add₀ hten,
      zpow_natCast]
  have hscaled : ((num * 10 ^ places : ℕ) : ℚ) / den - (10 ^ (k + places).toNat : ℕ) =
      ((num : ℚ) / den - 10 ^ k) * 10 ^ places := by
    rw [hpower]
    push_cast
    ring
  rw [zpow_neg, zpow_natCast, ← div_eq_mul_inv, lt_div_iff₀ (by positivity)] at hnear
  apply roundHalfEven_of_near hden
  rwa [hscaled, abs_mul, abs_of_pos (show (0 : ℚ) < 10 ^ places by positivity)]

end Decimal

namespace Answer

open Decimal Binary64

variable {x : Float} {m : Nat} {e : ℤ}

/-! ## One place more or fewer -/

/-- A zero behind a fraction is taken off. -/
theorem trimFraction_append_zero {text : List Char} (hpoint : '.' ∈ text) :
    trimFraction (text ++ ['0']) = trimFraction text := by
  unfold trimFraction
  rw [if_pos (List.contains_iff_mem.mpr (List.mem_append_left _ hpoint)),
    if_pos (List.contains_iff_mem.mpr hpoint), List.reverse_append, List.reverse_singleton,
    List.singleton_append, List.dropWhile_cons_of_pos rfl]

/-- A point behind digits is taken off. -/
theorem trimFraction_digits_append_point (n : Nat) :
    trimFraction (digits n ++ ['.']) = trimFraction (digits n) := by
  have hnone : '.' ∉ digits n := fun hmem => absurd (isDigit_digits n '.' hmem) (by decide)
  have hkept : (digits n).reverse.dropWhile (· == '.') = (digits n).reverse := by
    rw [List.dropWhile_eq_self_iff]
    intro hpos hfirst
    exact hnone (List.mem_reverse.mp (beq_iff_eq.mp hfirst ▸ List.getElem_mem hpos))
  unfold trimFraction
  rw [if_pos (by simp), if_neg (by simpa using hnone), List.reverse_append, List.reverse_singleton,
    List.singleton_append, List.dropWhile_cons_of_neg (by decide),
    List.dropWhile_cons_of_pos (by decide), hkept, List.reverse_reverse]

/-- The trimmed text is the same with one place more. -/
theorem trimFraction_withPoint_mul_ten (scaled places : Nat) :
    trimFraction (withPoint (scaled * 10) (places + 1)) =
      trimFraction (withPoint scaled places) := by
  rcases Nat.eq_zero_or_pos places with rfl | hplaces
  · have hone : withPoint (scaled * 10) (0 + 1) = digits scaled ++ ['.'] ++ ['0'] := by
      unfold withPoint
      dsimp only [Nat.pow_eq]
      rw [if_neg (Nat.succ_ne_zero 0), zero_add, pow_one, Nat.mul_div_cancel _ (by decide),
        Nat.mul_mod_left, padded_zero one_pos, List.append_assoc]
      rfl
    rw [hone, trimFraction_append_zero (by simp), trimFraction_digits_append_point]
    rfl
  · rw [withPoint_mul_ten scaled hplaces, trimFraction_append_zero]
    rw [withPoint, if_neg hplaces.ne']
    exact List.mem_append_right _ List.mem_cons_self

/-- So close to a power of ten that it is rounded to it, a number has the same trimmed text with
one place more. -/
theorem trimFraction_fixedMagnitude_succ {places : Nat} {k : ℤ} (hk : 0 ≤ k + places)
    (hnear : |(numerator m e : ℚ) / denominator e - 10 ^ k| <
      1 / 2 * 10 ^ (-((places + 1 : ℕ) : ℤ))) :
    trimFraction (fixedMagnitude (places + 1) m e) = trimFraction (fixedMagnitude places m e) := by
  have hless : |(numerator m e : ℚ) / denominator e - 10 ^ k| < 1 / 2 * 10 ^ (-(places : ℤ)) := by
    refine hnear.trans_le ?_
    gcongr
    · norm_num
    · omega
  have hexponent : (k + (places + 1 : ℕ)).toNat = (k + places).toNat + 1 := by omega
  dsimp only [fixedMagnitude, Nat.pow_eq]
  rw [roundHalfEven_near_power (denominator_pos e) (by omega) hnear,
    roundHalfEven_near_power (denominator_pos e) hk hless, hexponent, Nat.pow_succ,
    trimFraction_withPoint_mul_ten]

/-- The places that are counted for a number taken to start at a power of ten. -/
def placesFrom (lead : ℤ) : Nat :=
  min 15 (11 - lead).toNat

/-- The exact exponent gives the places of a number that is not zero. -/
theorem significantPlaces_eq {num : Nat} (hnum : 0 < num) (den : Nat) :
    significantPlaces num den = placesFrom (exponentOf num den) :=
  if_neg hnum.ne'

/-- Next to a power of ten, the places counted from the power below it give the same trimmed
text. -/
theorem trimFraction_placesFrom_pred {k : ℤ}
    (hnear : |(numerator m e : ℚ) / denominator e - 10 ^ k| < 1 / 2 * 10 ^ (k - 12)) :
    trimFraction (fixedMagnitude (placesFrom (k - 1)) m e) =
      trimFraction (fixedMagnitude (placesFrom k) m e) := by
  by_cases hclamped : k ≤ -4 ∨ 12 ≤ k
  · -- Both counts are cut to fifteen, or both are none.
    have hsame : placesFrom (k - 1) = placesFrom k := by
      unfold placesFrom
      omega
    rw [hsame]
  · have hmore : placesFrom (k - 1) = placesFrom k + 1 := by
      unfold placesFrom
      omega
    have hplaces : (placesFrom k : ℤ) = 11 - k := by
      unfold placesFrom
      omega
    have hlast : -((placesFrom k + 1 : ℕ) : ℤ) = k - 12 := by omega
    rw [hmore]
    refine trimFraction_fixedMagnitude_succ (k := k) (by omega) ?_
    rwa [hlast]

/-! ## An approximate logarithm -/

/-- Two numbers that are close have the same floor, or an integer lies between them. -/
theorem floor_eq_or_of_abs_sub_le {l l' distance : ℝ} (hnear : |l - l'| ≤ distance)
    (hless : distance < 1) : ⌊l⌋ = ⌊l'⌋ ∨ ∃ k : ℤ, |l' - k| ≤ distance ∧
      (⌊l⌋ = k - 1 ∧ ⌊l'⌋ = k ∨ ⌊l⌋ = k ∧ ⌊l'⌋ = k - 1) := by
  obtain ⟨hmin, hmax⟩ := abs_le.mp hnear
  have hstep : ⌊l⌋ ≤ ⌊l'⌋ + 1 := by
    rw [← Int.floor_add_one]
    exact Int.floor_mono (by linarith)
  have hstep' : ⌊l'⌋ ≤ ⌊l⌋ + 1 := by
    rw [← Int.floor_add_one]
    exact Int.floor_mono (by linarith)
  rcases lt_trichotomy ⌊l⌋ ⌊l'⌋ with hbelow | heq | habove
  · have hless' : l < ⌊l'⌋ := Int.floor_lt.mp hbelow
    have hlow' := Int.floor_le l'
    refine .inr ⟨⌊l'⌋, abs_le.mpr ?_, .inl ⟨by omega, rfl⟩⟩
    constructor <;> linarith
  · exact .inl heq
  · have hless' : l' < ⌊l⌋ := Int.floor_lt.mp habove
    have hlow := Int.floor_le l
    refine .inr ⟨⌊l⌋, abs_le.mpr ?_, .inr ⟨rfl, by omega⟩⟩
    constructor <;> linarith

/-- A number with a logarithm next to an integer is next to a power of ten. -/
theorem abs_sub_power_lt_of_logb {q : ℚ} (hq : 0 < q) {k : ℤ}
    (hlog : |Real.logb 10 q - k| ≤ 1 / 10 ^ 14) : |q - 10 ^ k| < 1 / 2 * 10 ^ (k - 12) := by
  have hq' : (0 : ℝ) < q := by exact_mod_cast hq
  generalize hd : Real.logb 10 q - k = d at hlog
  have hpower : (q : ℝ) = 10 ^ k * Real.exp (Real.log 10 * d) := by
    rw [← Real.rpow_def_of_pos (by norm_num), ← Real.rpow_intCast, ← Real.rpow_add (by norm_num),
      ← hd, add_sub_cancel, Real.rpow_logb (by norm_num) (by norm_num) hq']
  have hlogten : |Real.log 10| ≤ 9 := by
    have hpos : 0 ≤ Real.log 10 := Real.log_nonneg (by norm_num)
    have hle := Real.log_le_sub_one_of_pos (show (0 : ℝ) < 10 by norm_num)
    rw [abs_of_nonneg hpos]
    linarith
  have hsmall : |Real.log 10 * d| ≤ 9 * (1 / 10 ^ 14) := by
    rw [abs_mul]
    gcongr
  have hexp : |Real.exp (Real.log 10 * d) - 1| < 1 / 2 * 10 ^ (-12 : ℤ) := by
    have hnear := Real.abs_exp_sub_one_le (hsmall.trans (by norm_num))
    have hbound : 2 * (9 * (1 / 10 ^ 14)) < (1 / 2 * 10 ^ (-12 : ℤ) : ℝ) := by norm_num
    linarith
  have hreal : |(q : ℝ) - 10 ^ k| < 1 / 2 * 10 ^ (k - 12) := by
    have hfactored : (q : ℝ) - 10 ^ k = 10 ^ k * (Real.exp (Real.log 10 * d) - 1) := by
      rw [hpower]
      ring
    have hscale : (1 / 2 : ℝ) * 10 ^ (k - 12) = 10 ^ k * (1 / 2 * 10 ^ (-12 : ℤ)) := by
      rw [sub_eq_add_neg, zpow_add₀ (by norm_num)]
      ring
    rw [hfactored, hscale, abs_mul, abs_of_pos (show (0 : ℝ) < 10 ^ k by positivity)]
    gcongr
  have hcast : ((|q - 10 ^ k| : ℚ) : ℝ) < (1 / 2 * 10 ^ (k - 12) : ℚ) := by
    push_cast
    exact hreal
  exact Rat.cast_lt.mp hcast

/-- The exponent of a quotient is the floor of its logarithm. -/
theorem exponentOf_eq_floor_logb {num den : Nat} (hnum : 0 < num) (hden : 0 < den) :
    exponentOf num den = ⌊Real.logb 10 ((num : ℚ) / den : ℚ)⌋ := by
  have hpos : (0 : ℝ) < ((num : ℚ) / den : ℚ) := by
    have hpos : (0 : ℚ) < (num : ℚ) / den := by positivity
    exact_mod_cast hpos
  have hlow : ((10 ^ exponentOf num den : ℚ) : ℝ) ≤ ((num : ℚ) / den : ℚ) :=
    Rat.cast_le.mpr (exponentOf_le hnum hden)
  have hhigh : (((num : ℚ) / den : ℚ) : ℝ) < (10 ^ (exponentOf num den + 1) : ℚ) :=
    Rat.cast_lt.mpr (lt_exponentOf hnum hden)
  rw [eq_comm, Int.floor_eq_iff, Real.le_logb_iff_rpow_le (by norm_num) hpos,
    Real.logb_lt_iff_lt_rpow (by norm_num) hpos, ← Int.cast_one, ← Int.cast_add, Real.rpow_intCast,
    Real.rpow_intCast]
  push_cast at hlow hhigh ⊢
  exact ⟨hlow, hhigh⟩

/-- The places may be counted by a logarithm that is off by no more than a unit of the fourteenth
place: of a number that is not zero the text with twelve significant digits is the same. -/
theorem significantText_eq_of_logarithm {negative : Bool} (hx : ofFloat x = .finite negative m e)
    (hzero : toRat x ≠ 0) {l : ℝ} (hl : |l - Real.logb 10 (|toRat x| : ℚ)| ≤ 1 / 10 ^ 14) :
    significantText x =
      let magnitude := trimFraction (fixedMagnitude (placesFrom ⌊l⌋) m e)
      if magnitude = ['0'] then magnitude else signed negative magnitude := by
  have hnum := numerator_pos_of_toRat_ne_zero hx hzero
  have hden := denominator_pos e
  have hpos : (0 : ℚ) < (numerator m e : ℚ) / denominator e := by positivity
  have hlead := exponentOf_eq_floor_logb hnum hden
  rw [abs_toRat_of_ofFloat hx] at hl
  unfold significantText
  rw [hx]
  dsimp only
  rw [significantPlaces_eq hnum]
  have hsame : trimFraction (fixedMagnitude (placesFrom ⌊l⌋) m e) = trimFraction
      (fixedMagnitude (placesFrom (exponentOf (numerator m e) (denominator e))) m e) := by
    rw [hlead]
    obtain heq | ⟨k, hnear, hbetween⟩ := floor_eq_or_of_abs_sub_le hl (by norm_num)
    · rw [heq]
    · have hpower := trimFraction_placesFrom_pred (abs_sub_power_lt_of_logb hpos hnear)
      obtain ⟨hbelow, hexact⟩ | ⟨habove, hexact⟩ := hbetween
      · rw [hbelow, hexact, hpower]
      · rw [habove, hexact, hpower]
  rw [hsame]

end Answer

end Reckoner
