import Reckoner.Proofs.Binary64.Bits
import Mathlib.Algebra.Order.Field.Power
import Mathlib.Data.Rat.Cast.Order
import Mathlib.Tactic.FieldSimp
import Mathlib.Tactic.Linarith
import Mathlib.Tactic.Ring

/-!
# The numbers that round to a double

Around every finite double lies an interval of the numbers to which no other double is nearer. Its
ends belong to it when the mantissa is even. This file shows that `Binary64.nearestBits` gives the
pattern of a double for every quotient in the double's interval.
-/

namespace Reckoner

/-- A power with an integer exponent, as the quotient of powers that the code computes with. -/
theorem zpow_eq_pow_div_pow (b : ℚ) (z : ℤ) :
    b ^ z = b ^ z.toNat / b ^ (-z).toNat := by
  rcases le_total 0 z with hz | hz
  · obtain ⟨n, rfl⟩ := Int.eq_ofNat_of_zero_le hz
    simp
  · obtain ⟨n, hn⟩ := Int.eq_ofNat_of_zero_le (Int.neg_nonneg_of_nonpos hz)
    obtain rfl : z = -(n : ℤ) := by omega
    simp

/-- A quotient scaled by a power, as the code computes it. -/
theorem scaled_div_scaled (num den b : Nat) (z : ℤ) :
    ((num * b ^ z.toNat : Nat) : ℚ) / ((den * b ^ (-z).toNat : Nat) : ℚ)
      = (num : ℚ) / den * (b : ℚ) ^ z := by
  rw [zpow_eq_pow_div_pow]
  push_cast
  rw [mul_div_mul_comm]

/-- A quotient divided by a power, as the code computes it. -/
theorem scaled_div_scaled_neg (num den b : Nat) (z : ℤ) :
    ((num * b ^ (-z).toNat : Nat) : ℚ) / ((den * b ^ z.toNat : Nat) : ℚ)
      = (num : ℚ) / den / (b : ℚ) ^ z := by
  have h := scaled_div_scaled num den b (-z)
  rw [neg_neg] at h
  rw [h, zpow_neg, ← div_eq_mul_inv]

/-- The rounded quotient is the only integer that is nearer than a half, or just a half away and
even. -/
theorem roundHalfEven_eq {num den n : Nat} (hden : 0 < den)
    (hlow : (n : ℚ) - 1 / 2 ≤ (num : ℚ) / den) (hhigh : (num : ℚ) / den ≤ n + 1 / 2)
    (hodd : n % 2 = 1 → (n : ℚ) - 1 / 2 < (num : ℚ) / den ∧ (num : ℚ) / den < n + 1 / 2) :
    roundHalfEven num den = n := by
  have hden' : (0 : ℚ) < den := by exact_mod_cast hden
  -- The bounds, without fractions.
  have hlow' : 2 * n * den ≤ 2 * num + den := by
    rw [le_div_iff₀ hden'] at hlow
    have h : (2 * n * den : ℚ) ≤ 2 * num + den := by linarith
    exact_mod_cast h
  have hhigh' : 2 * num ≤ 2 * n * den + den := by
    rw [div_le_iff₀ hden'] at hhigh
    have h : (2 * num : ℚ) ≤ 2 * n * den + den := by linarith
    exact_mod_cast h
  have hodd' : n % 2 = 1 → 2 * n * den < 2 * num + den ∧ 2 * num < 2 * n * den + den := by
    intro hn
    obtain ⟨hl, hh⟩ := hodd hn
    rw [lt_div_iff₀ hden'] at hl
    rw [div_lt_iff₀ hden'] at hh
    have h₁ : (2 * n * den : ℚ) < 2 * num + den := by linarith
    have h₂ : (2 * num : ℚ) < 2 * n * den + den := by linarith
    exact ⟨by exact_mod_cast h₁, by exact_mod_cast h₂⟩
  have hsplit : num / den * den + num % den = num := by
    rw [Nat.mul_comm]
    exact Nat.div_add_mod num den
  have hrem := Nat.mod_lt num hden
  rw [Nat.mul_assoc] at hlow' hhigh' hodd'
  unfold roundHalfEven
  dsimp only
  generalize num / den = quotient at *
  -- The floor is the integer itself or its predecessor.
  have hfloor : n = quotient ∨ n = quotient + 1 := by
    by_contra hother
    rcases Nat.lt_or_ge n quotient with hless | hmore
    · have h := Nat.mul_le_mul_right den hless
      rw [Nat.succ_mul] at h
      omega
    · have h := Nat.mul_le_mul_right den (show quotient + 2 ≤ n by omega)
      rw [Nat.add_mul] at h
      omega
  rcases hfloor with rfl | rfl
  · split
    · rfl
    · rw [if_neg (by omega), if_pos (by omega)]
  · rw [Nat.add_mul] at hlow' hhigh' hodd'
    rw [if_neg (by omega)]
    split
    · rfl
    · rw [if_neg (by omega)]

namespace Binary64

/-- The binary logarithm of a natural number is that of its binade. -/
theorem two_zpow_log2 {n : Nat} (hn : 0 < n) :
    (2 : ℚ) ^ (n.log2 : ℤ) ≤ n ∧ (n : ℚ) < 2 ^ ((n.log2 : ℤ) + 1) := by
  have hlow : 2 ^ n.log2 ≤ n := Nat.log2_self_le (by omega)
  have hhigh : n < 2 ^ (n.log2 + 1) := Nat.lt_log2_self
  exact ⟨by exact_mod_cast hlow, by exact_mod_cast hhigh⟩

/-- The exponent of a quotient is that of its binade. -/
theorem binaryExponent_spec {num den : Nat} (hnum : 0 < num) (hden : 0 < den) :
    (2 : ℚ) ^ binaryExponent num den ≤ (num : ℚ) / den ∧
      (num : ℚ) / den < 2 ^ (binaryExponent num den + 1) := by
  have hden' : (0 : ℚ) < den := by exact_mod_cast hden
  obtain ⟨hnumlow, hnumhigh⟩ := two_zpow_log2 hnum
  obtain ⟨hdenlow, hdenhigh⟩ := two_zpow_log2 hden
  have htwo : (2 : ℚ) ≠ 0 := two_ne_zero
  -- The logarithms of both parts leave two binades, and the comparison decides between them.
  have hlow : (2 : ℚ) ^ ((num.log2 : ℤ) - den.log2 - 1) ≤ (num : ℚ) / den := by
    rw [le_div_iff₀ hden']
    calc (2 : ℚ) ^ ((num.log2 : ℤ) - den.log2 - 1) * den
        ≤ 2 ^ ((num.log2 : ℤ) - den.log2 - 1) * 2 ^ ((den.log2 : ℤ) + 1) := by gcongr
      _ = 2 ^ (num.log2 : ℤ) := by rw [← zpow_add₀ htwo]; congr 1; ring
      _ ≤ num := hnumlow
  have hhigh : (num : ℚ) / den < 2 ^ ((num.log2 : ℤ) - den.log2 + 1) := by
    rw [div_lt_iff₀ hden']
    calc (num : ℚ) < 2 ^ ((num.log2 : ℤ) + 1) := hnumhigh
      _ = 2 ^ ((num.log2 : ℤ) - den.log2 + 1) * 2 ^ (den.log2 : ℤ) := by
        rw [← zpow_add₀ htwo]; congr 1; ring
      _ ≤ 2 ^ ((num.log2 : ℤ) - den.log2 + 1) * den := by gcongr
  have htest (z : ℤ) :
      den * 2 ^ z.toNat ≤ num * 2 ^ (-z).toNat ↔ (2 : ℚ) ^ z ≤ (num : ℚ) / den := by
    rw [zpow_eq_pow_div_pow, div_le_div_iff₀ (by positivity) hden', mul_comm (2 ^ z.toNat)]
    exact_mod_cast Iff.rfl
  simp only [binaryExponent, Nat.pow_eq]
  split
  · next h => exact ⟨(htest _).mp h, hhigh⟩
  · next h =>
    rw [htest, not_le] at h
    exact ⟨hlow, by rwa [sub_add_cancel]⟩

/-- No quotient is rounded past infinity. -/
theorem nearestBits_le (num den : Nat) : nearestBits num den ≤ infinityBits := by
  unfold nearestBits
  split
  · exact Nat.zero_le _
  · exact Nat.min_le_left _ _

/-- The number of a mantissa and an exponent. -/
def magnitude (mantissa : Nat) (exponent : ℤ) : ℚ :=
  mantissa * 2 ^ exponent

/-- The quotient of natural numbers that the code computes with is the magnitude. -/
theorem numerator_div_denominator (m : Nat) (e : ℤ) :
    (numerator m e : ℚ) / denominator e = magnitude m e := by
  have h := scaled_div_scaled m 1 2 e
  rw [one_mul, Nat.cast_one, div_one] at h
  exact h

/-- The distance to the lower end of the interval, in units of the last place. -/
def reachBelow (mantissa : Nat) (exponent : ℤ) : ℚ :=
  if mantissa = 2 ^ 52 ∧ -1074 < exponent then 1 / 4 else 1 / 2

/-- The number `q` rounds to the double. Just above a power of two the doubles below are half as far
apart. -/
structure RoundsTo (q : ℚ) (mantissa : Nat) (exponent : ℤ) : Prop where
  lower : (mantissa - reachBelow mantissa exponent) * 2 ^ exponent ≤ q
  upper : q ≤ (mantissa + 1 / 2) * 2 ^ exponent
  ends : mantissa % 2 = 1 →
    (mantissa - reachBelow mantissa exponent) * 2 ^ exponent < q ∧
      q < (mantissa + 1 / 2) * 2 ^ exponent

/-- The interval reaches no further down than half a unit. -/
theorem reachBelow_le (m : Nat) (e : ℤ) : reachBelow m e ≤ 1 / 2 := by
  unfold reachBelow
  split <;> norm_num

/-- Rounding at a spacing gives the integer that the scaled quotient is nearest to. -/
theorem roundHalfEven_scaled {num den n : Nat} {z : ℤ} (hden : 0 < den)
    (hlow : (n - 1 / 2) * 2 ^ z ≤ (num : ℚ) / den) (hhigh : (num : ℚ) / den ≤ (n + 1 / 2) * 2 ^ z)
    (hodd : n % 2 = 1 →
      (n - 1 / 2) * 2 ^ z < (num : ℚ) / den ∧ (num : ℚ) / den < (n + 1 / 2) * 2 ^ z) :
    roundHalfEven (num * 2 ^ (-z).toNat) (den * 2 ^ z.toNat) = n := by
  have hpos : (0 : ℚ) < 2 ^ z := by positivity
  have hscaled : ((num * 2 ^ (-z).toNat : Nat) : ℚ) / ((den * 2 ^ z.toNat : Nat) : ℚ)
      = (num : ℚ) / den / 2 ^ z := scaled_div_scaled_neg num den 2 z
  apply roundHalfEven_eq (by positivity)
  · rw [hscaled, le_div_iff₀ hpos]
    exact hlow
  · rw [hscaled, div_le_iff₀ hpos]
    exact hhigh
  · intro hn
    rw [hscaled, lt_div_iff₀ hpos, div_lt_iff₀ hpos]
    exact hodd hn

/-- A quotient in the interval of a double is rounded at the double's own spacing, or it lies just
below a power of two, which is the double. -/
theorem RoundsTo.spacing {num den m : Nat} {e : ℤ} (hq : RoundsTo ((num : ℚ) / den) m e)
    (hformat : IsFormat m e) (hnum : 0 < num) (hden : 0 < den) :
    max (-1074) (binaryExponent num den - 52) = e ∨
      (max (-1074) (binaryExponent num den - 52) = e - 1 ∧ m = 2 ^ 52 ∧
        (num : ℚ) / den < 2 ^ 53 * 2 ^ (e - 1)) := by
  obtain ⟨hm, helow, -, hleading⟩ := hformat
  obtain ⟨hklow, hkhigh⟩ := binaryExponent_spec hnum hden
  generalize binaryExponent num den = k at *
  generalize (num : ℚ) / den = q at *
  have hpos : (0 : ℚ) < 2 ^ e := by positivity
  have hbinade (n : ℕ) : (2 : ℚ) ^ (e + n) = 2 ^ n * 2 ^ e := by
    rw [zpow_add₀ two_ne_zero, zpow_natCast, mul_comm]
  -- The quotient does not reach the binade above.
  have habove : k < e + 53 := by
    have hmax : (m : ℚ) + 1 / 2 < 2 ^ 53 := by
      have h : ((m + 1 : ℕ) : ℚ) ≤ 2 ^ 53 := by exact_mod_cast hm
      push_cast at h
      linarith
    have hlt : (2 : ℚ) ^ k < 2 ^ (e + (53 : ℕ)) := by
      rw [hbinade]
      calc (2 : ℚ) ^ k ≤ q := hklow
        _ ≤ (m + 1 / 2) * 2 ^ e := hq.upper
        _ < 2 ^ 53 * 2 ^ e := by gcongr
    exact (zpow_lt_zpow_iff_right₀ one_lt_two).mp hlt
  rcases le_or_gt ((2 : ℚ) ^ (e + (52 : ℕ))) q with hin | hbelow
  · have h := (zpow_lt_zpow_iff_right₀ one_lt_two).mp (hin.trans_lt hkhigh)
    left
    push_cast at h
    omega
  · by_cases hleast : e = -1074
    · left
      omega
    have hleading : 2 ^ 52 ≤ m := hleading.resolve_left hleast
    right
    rw [hbinade] at hbelow
    -- Only the least mantissa of a binade has numbers below the binade in its interval.
    have hpower : m = 2 ^ 52 := by
      by_contra hother
      have h : ((2 ^ 52 + 1 : ℕ) : ℚ) ≤ m := by exact_mod_cast (by omega : 2 ^ 52 + 1 ≤ m)
      push_cast at h
      have hle : (2 : ℚ) ^ 52 ≤ m - reachBelow m e := by
        have := reachBelow_le m e
        linarith
      have hcontra : (2 : ℚ) ^ 52 * 2 ^ e ≤ q := le_trans (by gcongr) hq.lower
      linarith
    have hhalf : (2 : ℚ) ^ e = 2 * 2 ^ (e - 1) := by
      rw [zpow_sub_one₀ two_ne_zero]
      ring
    have hjust : (2 : ℚ) ^ (e + (51 : ℕ)) ≤ q := by
      refine le_trans ?_ hq.lower
      rw [hbinade, hpower]
      have := reachBelow_le (2 ^ 52) e
      gcongr
      push_cast
      linarith
    have hk := (zpow_lt_zpow_iff_right₀ one_lt_two).mp (hjust.trans_lt hkhigh)
    have hk' := (zpow_lt_zpow_iff_right₀ one_lt_two).mp
      (hklow.trans_lt (hbelow.trans_eq (hbinade 52).symm))
    push_cast at hk hk'
    refine ⟨by omega, hpower, ?_⟩
    rw [hhalf] at hbelow
    linarith

/-- A quotient in the interval of a double, which is not zero, has the double's pattern. -/
theorem nearestBits_eq {num den m : Nat} {e : ℤ} (hformat : IsFormat m e) (hm : 0 < m)
    (hden : 0 < den) (hq : RoundsTo ((num : ℚ) / den) m e) :
    nearestBits num den = pattern m e := by
  have hlt := hformat.pattern_lt
  have hpos : (0 : ℚ) < 2 ^ e := by positivity
  have hreach := reachBelow_le m e
  have hnum : 0 < num := by
    rw [Nat.pos_iff_ne_zero]
    rintro rfl
    have h := hq.lower
    have hone : (1 : ℚ) ≤ m := by exact_mod_cast hm
    have hproduct : (0 : ℚ) < (m - reachBelow m e) * 2 ^ e := mul_pos (by linarith) hpos
    rw [Nat.cast_zero, zero_div] at h
    linarith
  rw [nearestBits, if_neg hnum.ne']
  simp only [Nat.pow_eq]
  rcases hq.spacing hformat hnum hden with hown | ⟨hfiner, rfl, hbelow⟩
  · rw [hown]
    have hwider : (m - 1 / 2) * 2 ^ e ≤ (m - reachBelow m e) * 2 ^ e := by gcongr
    rw [roundHalfEven_scaled (n := m) hden (hwider.trans hq.lower) hq.upper]
    · exact Nat.min_eq_right hlt.le
    · intro hodd
      exact ⟨hwider.trans_lt (hq.ends hodd).1, (hq.ends hodd).2⟩
  · have hleast : -1074 < e := by omega
    have hhalf : (2 : ℚ) ^ e = 2 * 2 ^ (e - 1) := by
      rw [zpow_sub_one₀ two_ne_zero]
      ring
    have hlow : ((2 ^ 53 : ℕ) - 1 / 2 : ℚ) * 2 ^ (e - 1) ≤ (num : ℚ) / den := by
      have h := hq.lower
      rw [reachBelow, if_pos ⟨rfl, hleast⟩, hhalf] at h
      push_cast at h ⊢
      linarith
    have hhigh : (num : ℚ) / den ≤ ((2 ^ 53 : ℕ) + 1 / 2) * 2 ^ (e - 1) := by
      have hunit : (0 : ℚ) < 2 ^ (e - 1) := by positivity
      push_cast
      linarith
    rw [hfiner, roundHalfEven_scaled hden hlow hhigh (by omega)]
    -- The mantissa that rounds up to `2 ^ 53` carries into the exponent field.
    unfold pattern at hlt ⊢
    omega

end Binary64

end Reckoner
