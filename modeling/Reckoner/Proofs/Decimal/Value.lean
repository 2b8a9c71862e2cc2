import Reckoner.Decimal.Literal
import Reckoner.Proofs.Binary64.Nearest

/-!
# The number that a decimal denotes

The digits of a coefficient are counted to find the power of ten at which a number starts. This file
shows that the count is right for a decimal and for a quotient, and that a decimal is read as the
double whose interval its number lies in: the shortcuts for very large and very small decimals are
not taken inside the interval of a finite double.
-/

namespace Reckoner.Decimal

open Binary64

/-- The number that a decimal denotes. -/
def value (d : Decimal) : ℚ :=
  d.coefficient * 10 ^ d.exponent

/-- A number is below the power of ten with as many zeros as it has digits. -/
theorem lt_pow_length_digits (n : Nat) : n < 10 ^ (digits n).length :=
  (Nat.length_toDigits_le_iff (by decide) Nat.length_toDigits_pos).mp le_rfl

/-- A positive number is not below the power of ten that starts at its leading digit. -/
theorem pow_length_digits_le {n : Nat} (hn : 0 < n) : 10 ^ ((digits n).length - 1) ≤ n := by
  by_contra hless
  rw [not_le] at hless
  rcases Nat.eq_zero_or_pos ((digits n).length - 1) with hzero | hpos
  · rw [hzero] at hless
    omega
  · have h := (Nat.length_toDigits_le_iff (by decide) hpos).mpr hless
    unfold digits at hpos h
    omega

/-- A decimal that is not zero lies between the powers of ten around its leading digit. -/
theorem leadingExponent_spec {d : Decimal} (hd : 0 < d.coefficient) :
    (10 : ℚ) ^ d.leadingExponent ≤ d.value ∧ d.value < 10 ^ (d.leadingExponent + 1) := by
  have hlow := pow_length_digits_le hd
  have hhigh := lt_pow_length_digits d.coefficient
  have hlength : 0 < (digits d.coefficient).length := Nat.length_toDigits_pos
  have hten : (10 : ℚ) ≠ 0 := by norm_num
  unfold leadingExponent value
  generalize (digits d.coefficient).length = n at *
  have hlow' : (10 : ℚ) ^ (n - 1) ≤ d.coefficient := by exact_mod_cast hlow
  have hhigh' : (d.coefficient : ℚ) < 10 ^ n := by exact_mod_cast hhigh
  constructor
  · rw [show d.exponent + n - 1 = ((n - 1 : Nat) : ℤ) + d.exponent by omega, zpow_add₀ hten,
      zpow_natCast]
    gcongr
  · rw [show d.exponent + n - 1 + 1 = (n : ℤ) + d.exponent by omega, zpow_add₀ hten, zpow_natCast]
    gcongr

/-- A quotient is not below the power of ten that is computed for it. -/
theorem exponentOf_le {num den : Nat} (hnum : 0 < num) (hden : 0 < den) :
    (10 : ℚ) ^ exponentOf num den ≤ (num : ℚ) / den := by
  have hden' : (0 : ℚ) < den := by exact_mod_cast hden
  unfold exponentOf
  split
  · next hle =>
    have hquotient : 0 < num / den := Nat.div_pos hle hden
    have hlow := pow_length_digits_le hquotient
    have hlength : 0 < (digits (num / den)).length := Nat.length_toDigits_pos
    rw [show ((digits (num / den)).length : ℤ) - 1 = (((digits (num / den)).length - 1 : Nat) : ℤ)
      by omega, zpow_natCast, le_div_iff₀ hden']
    exact_mod_cast (Nat.le_div_iff_mul_le hden).mp hlow
  · have hreciprocal := lt_pow_length_digits ((den - 1) / num)
    have hproduct := (Nat.div_lt_iff_lt_mul hnum).mp hreciprocal
    rw [zpow_neg, zpow_natCast, inv_eq_one_div, div_le_div_iff₀ (by positivity) hden', one_mul,
      mul_comm]
    exact_mod_cast (by omega : den ≤ 10 ^ (digits ((den - 1) / num)).length * num)

/-- A quotient is below the next power of ten. -/
theorem lt_exponentOf {num den : Nat} (hnum : 0 < num) (hden : 0 < den) :
    (num : ℚ) / den < 10 ^ (exponentOf num den + 1) := by
  have hden' : (0 : ℚ) < den := by exact_mod_cast hden
  unfold exponentOf
  split
  · have hhigh := (Nat.div_lt_iff_lt_mul hden).mp (lt_pow_length_digits (num / den))
    rw [sub_add_cancel, zpow_natCast, div_lt_iff₀ hden']
    exact_mod_cast hhigh
  · have hreciprocal : 0 < (den - 1) / num := Nat.div_pos (by omega) hnum
    have hlow := (Nat.le_div_iff_mul_le hnum).mp (pow_length_digits_le hreciprocal)
    have hlength : 0 < (digits ((den - 1) / num)).length := Nat.length_toDigits_pos
    generalize (digits ((den - 1) / num)).length = length at *
    rw [show -(length : ℤ) + 1 = -((length - 1 : Nat) : ℤ) by omega, zpow_neg, zpow_natCast,
      div_lt_iff₀ hden', ← div_eq_inv_mul, lt_div_iff₀ (by positivity), mul_comm]
    exact_mod_cast (by omega : 10 ^ (length - 1) * num < den)

/-- There is one power of ten at which a quotient starts. -/
theorem exponentOf_eq {num den : Nat} {e : ℤ} (hden : 0 < den)
    (hlow : (10 : ℚ) ^ e ≤ (num : ℚ) / den) (hhigh : (num : ℚ) / den < 10 ^ (e + 1)) :
    exponentOf num den = e := by
  have hten : (1 : ℚ) < 10 := by norm_num
  have hnum : 0 < num := by
    rw [Nat.pos_iff_ne_zero]
    rintro rfl
    have hpos : (0 : ℚ) < 10 ^ e := by positivity
    rw [Nat.cast_zero, zero_div] at hlow
    exact absurd hlow (not_le.mpr hpos)
  have hbelow := (zpow_lt_zpow_iff_right₀ hten).mp ((exponentOf_le hnum hden).trans_lt hhigh)
  have habove := (zpow_lt_zpow_iff_right₀ hten).mp (hlow.trans_lt (lt_exponentOf hnum hden))
  omega

/-- The numbers that are taken for zero are below half the least positive double. -/
theorem ten_zpow_le_half_least : (10 : ℚ) ^ (-325 : ℤ) ≤ 1 / 2 * 2 ^ (-1074 : ℤ) := by
  have hpowers : ((2 * 2 ^ 1074 : ℕ) : ℚ) ≤ ((10 ^ 325 : ℕ) : ℚ) :=
    Nat.cast_le.mpr (by decide +kernel)
  rw [Nat.cast_mul, Nat.cast_pow, Nat.cast_pow, Nat.cast_ofNat, Nat.cast_ofNat] at hpowers
  calc (10 : ℚ) ^ (-325 : ℤ) = 1 / 10 ^ 325 := by rw [zpow_neg, one_div]; rfl
    _ ≤ 1 / (2 * 2 ^ 1074) := by gcongr
    _ = 1 / 2 * 2 ^ (-1074 : ℤ) := by rw [zpow_neg, one_div, one_div, mul_inv]; rfl

/-- The numbers that are taken for infinite are past the range of the doubles. -/
theorem two_pow_lt_ten_zpow : (2 : ℚ) ^ 1024 < 10 ^ (310 : ℤ) := by
  have hpowers : ((2 ^ 1024 : ℕ) : ℚ) < ((10 ^ 310 : ℕ) : ℚ) :=
    Nat.cast_lt.mpr (by decide +kernel)
  rw [Nat.cast_pow, Nat.cast_pow, Nat.cast_ofNat, Nat.cast_ofNat] at hpowers
  exact hpowers

/-- The interval of a double that is not zero lies above the numbers that are taken for zero and
below those that are taken for infinite. -/
theorem bounds_of_roundsTo {q : ℚ} {m : Nat} {e : ℤ} (hformat : IsFormat m e) (hm : 0 < m)
    (hq : RoundsTo q m e) : (10 : ℚ) ^ (-325 : ℤ) ≤ q ∧ q < 10 ^ (310 : ℤ) := by
  obtain ⟨hmax, hlow, hhigh, -⟩ := hformat
  have htwo : (1 : ℚ) ≤ 2 := one_le_two
  constructor
  · have hhalf : (1 / 2 : ℚ) ≤ m - reachBelow m e := by
      have hone : (1 : ℚ) ≤ m := by exact_mod_cast hm
      have := reachBelow_le m e
      linarith
    calc (10 : ℚ) ^ (-325 : ℤ) ≤ 1 / 2 * 2 ^ (-1074 : ℤ) := ten_zpow_le_half_least
      _ ≤ (m - reachBelow m e) * 2 ^ e := by gcongr
      _ ≤ q := hq.lower
  · have hbelow : (m : ℚ) + 1 / 2 ≤ 2 ^ 53 := by
      have h : ((m + 1 : ℕ) : ℚ) ≤ 2 ^ 53 := by exact_mod_cast hmax
      push_cast at h
      linarith
    calc q ≤ (m + 1 / 2) * 2 ^ e := hq.upper
      _ ≤ 2 ^ 53 * 2 ^ (971 : ℤ) := by gcongr
      _ = 2 ^ 1024 := by rw [← zpow_natCast, ← zpow_natCast, ← zpow_add₀ two_ne_zero]; rfl
      _ < 10 ^ (310 : ℤ) := two_pow_lt_ten_zpow

/-- A decimal in the interval of a double, which is not zero, is read as the double. -/
theorem toFloat_eq {d : Decimal} {m : Nat} {e : ℤ} (hformat : IsFormat m e) (hm : 0 < m)
    (hd : RoundsTo d.value m e) : d.toFloat = Float.ofBits (UInt64.ofNat (pattern m e)) := by
  obtain ⟨hlow, hhigh⟩ := bounds_of_roundsTo hformat hm hd
  have hcoefficient : 0 < d.coefficient := by
    rw [Nat.pos_iff_ne_zero]
    intro hzero
    have hpos : (0 : ℚ) < 10 ^ (-325 : ℤ) := by positivity
    rw [value, hzero, Nat.cast_zero, zero_mul] at hlow
    linarith
  obtain ⟨hleadlow, hleadhigh⟩ := leadingExponent_spec hcoefficient
  have hten : (1 : ℚ) < 10 := by norm_num
  have hmin := (zpow_lt_zpow_iff_right₀ hten).mp (hlow.trans_lt hleadhigh)
  have hmax := (zpow_lt_zpow_iff_right₀ hten).mp (hleadlow.trans_lt hhigh)
  have hquotient : ((d.coefficient * 10 ^ d.exponent.toNat : Nat) : ℚ)
      / ((10 ^ (-d.exponent).toNat : Nat) : ℚ) = d.value := by
    have h := scaled_div_scaled d.coefficient 1 10 d.exponent
    rw [one_mul, Nat.cast_one, div_one] at h
    exact h
  unfold leadingExponent at hmin hmax
  simp only [toFloat, Nat.pow_eq]
  rw [if_neg (by omega), if_neg (by omega), nearest,
    nearestBits_eq hformat hm (by positivity) (by rw [hquotient]; exact hd)]

/-- A decimal is read as a double without a sign that is a number. -/
theorem ofFloat_toFloat (d : Decimal) :
    ofFloat d.toFloat = .infinite false ∨ ∃ m e, ofFloat d.toFloat = .finite false m e := by
  have hbits {bits : Nat} (h : bits ≤ infinityBits) :
      ofFloat (Float.ofBits (UInt64.ofNat bits)) = .infinite false ∨
        ∃ m e, ofFloat (Float.ofBits (UInt64.ofNat bits)) = .finite false m e := by
    rw [ofFloat_ofBits h]
    exact ofBits_of_le h
  unfold toFloat
  dsimp only
  split
  · exact hbits (Nat.zero_le infinityBits)
  · split
    · exact hbits le_rfl
    · exact hbits (nearestBits_le _ _)

end Reckoner.Decimal
