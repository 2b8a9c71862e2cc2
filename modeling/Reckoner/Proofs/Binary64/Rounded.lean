import Mathlib.Data.Int.Log
import Mathlib.Tactic.IntervalCases
import Reckoner.Proofs.Binary64.Nearest

/-!
# Rounding a number to 53 bits

Every operation on doubles gives the exact result, rounded. This file defines the rounded number,
without any regard to what is too large for a double, and proves what the analysis of a computation
with doubles needs: rounding keeps the order, it changes no number with few enough bits, its error
is small next to the number, and no number with few enough bits is nearer.
-/

namespace Reckoner.Binary64

/-! ## The nearest integer -/

/-- An integer is nearest to a number, and even if it is just a half away. -/
structure IsNearestInteger (q : ℚ) (n : ℤ) : Prop where
  near : |q - n| ≤ 1 / 2
  even_of_tie : |q - n| = 1 / 2 → Even n

/-- The integer nearest to a number: a half goes up first, and back again from an odd integer. -/
def nearestInteger (q : ℚ) : ℤ :=
  if (⌊q + 1 / 2⌋ : ℚ) = q + 1 / 2 ∧ ¬ Even ⌊q + 1 / 2⌋ then ⌊q + 1 / 2⌋ - 1 else ⌊q + 1 / 2⌋

/-- The nearest integer is one. -/
theorem isNearestInteger_nearestInteger (q : ℚ) : IsNearestInteger q (nearestInteger q) := by
  have hlow := Int.floor_le (q + 1 / 2)
  have hhigh := Int.lt_floor_add_one (q + 1 / 2)
  unfold nearestInteger
  generalize ⌊q + 1 / 2⌋ = up at *
  split
  · next hback =>
    obtain ⟨htie, hodd⟩ := hback
    have hdistance : q - ((up - 1 : ℤ) : ℚ) = 1 / 2 := by
      push_cast
      linarith
    refine ⟨by rw [hdistance, abs_of_pos one_half_pos], fun _ => ?_⟩
    exact (Int.not_even_iff_odd.mp hodd).sub_odd odd_one
  · next hkept =>
    refine ⟨abs_le.mpr ⟨by linarith, by linarith⟩, fun htie => ?_⟩
    by_contra hodd
    rcases abs_eq one_half_pos.le |>.mp htie with habove | hbelow
    · linarith
    · exact hkept ⟨by linarith, hodd⟩

/-- Nearest integers are in the order of the numbers. -/
theorem IsNearestInteger.le {q q' : ℚ} {n n' : ℤ} (h : IsNearestInteger q n)
    (h' : IsNearestInteger q' n') (hle : q ≤ q') : n ≤ n' := by
  by_contra hless
  have hn : (n' : ℚ) + 1 ≤ n := by exact_mod_cast not_le.mp hless
  obtain ⟨hlow, -⟩ := abs_le.mp h.near
  obtain ⟨-, hhigh⟩ := abs_le.mp h'.near
  -- Both numbers are the middle between the two integers, which cannot both be even.
  have hq : q - n = -(1 / 2) := by linarith
  have hq' : q' - n' = 1 / 2 := by linarith
  have hnext : n = n' + 1 := by
    have : (n : ℚ) = ((n' + 1 : ℤ) : ℚ) := by
      push_cast
      linarith
    exact_mod_cast this
  have heven := h.even_of_tie (by rw [hq, abs_neg, abs_of_pos one_half_pos])
  have heven' := h'.even_of_tie (by rw [hq', abs_of_pos one_half_pos])
  rw [hnext] at heven
  exact Int.not_even_iff_odd.mpr heven'.add_one heven

/-- There is one nearest integer. -/
theorem IsNearestInteger.eq {q : ℚ} {n : ℤ} (h : IsNearestInteger q n) : nearestInteger q = n :=
  ((isNearestInteger_nearestInteger q).le h le_rfl).antisymm
    (h.le (isNearestInteger_nearestInteger q) le_rfl)

/-- Larger numbers have larger nearest integers. -/
theorem nearestInteger_mono : Monotone nearestInteger := fun q q' hle =>
  (isNearestInteger_nearestInteger q).le (isNearestInteger_nearestInteger q') hle

/-- An integer is nearest to itself. -/
@[simp] theorem nearestInteger_intCast (n : ℤ) : nearestInteger n = n := by
  refine IsNearestInteger.eq ⟨?_, fun htie => ?_⟩
  · simp
  · simp at htie

/-- The other sign makes no other difference. -/
theorem nearestInteger_neg (q : ℚ) : nearestInteger (-q) = -nearestInteger q := by
  obtain ⟨hnear, heven⟩ := isNearestInteger_nearestInteger q
  have hdistance : |-q - ((-nearestInteger q : ℤ) : ℚ)| = |q - nearestInteger q| := by
    rw [Int.cast_neg, neg_sub_neg, abs_sub_comm]
  refine IsNearestInteger.eq ⟨hdistance ▸ hnear, fun htie => ?_⟩
  exact (heven (hdistance ▸ htie)).neg

/-- No integer is nearer than one that is at most a half away. -/
theorem abs_sub_le_of_le_half {q : ℚ} {n : ℤ} (hnear : |q - n| ≤ 1 / 2) (n' : ℤ) :
    |q - n| ≤ |q - n'| := by
  by_cases heq : n' = n
  · rw [heq]
  · have hapart : (1 : ℚ) ≤ |(n' : ℚ) - n| := by
      exact_mod_cast Int.one_le_abs (sub_ne_zero.mpr heq)
    have htriangle := abs_sub_le (n' : ℚ) q n
    rw [abs_sub_comm (n' : ℚ) q] at htriangle
    linarith

/-- No integer is nearer. -/
theorem abs_nearestInteger_sub_le (q : ℚ) (n : ℤ) : |(nearestInteger q : ℚ) - q| ≤ |n - q| := by
  rw [abs_sub_comm, abs_sub_comm (n : ℚ)]
  exact abs_sub_le_of_le_half (isNearestInteger_nearestInteger q).near n

/-- What is at most a half away in units is at most half a unit away. -/
theorem abs_mul_sub_le_of_le_half {q unit n : ℚ} (hunit : 0 < unit)
    (hnear : |q / unit - n| ≤ 1 / 2) : |n * unit - q| ≤ 1 / 2 * unit := by
  have hfactored : n * unit - q = (n - q / unit) * unit := by
    field_simp
  rw [hfactored, abs_mul, abs_of_pos hunit, abs_sub_comm]
  exact mul_le_mul_of_nonneg_right hnear hunit.le

/-- The quotient that the code rounds goes to its nearest integer. -/
theorem roundHalfEven_eq_nearestInteger (num : Nat) {den : Nat} (hden : 0 < den) :
    (roundHalfEven num den : ℤ) = nearestInteger ((num : ℚ) / den) := by
  obtain ⟨hnear, heven⟩ := isNearestInteger_nearestInteger ((num : ℚ) / den)
  have hnonneg : 0 ≤ nearestInteger ((num : ℚ) / den) := by
    have hmono := nearestInteger_mono (show ((0 : ℤ) : ℚ) ≤ (num : ℚ) / den by positivity)
    rwa [nearestInteger_intCast] at hmono
  obtain ⟨n, hn⟩ := Int.eq_ofNat_of_zero_le hnonneg
  rw [hn] at hnear heven ⊢
  obtain ⟨hlow, hhigh⟩ := abs_le.mp hnear
  push_cast at hlow hhigh heven
  have hodd : n % 2 = 1 → |(num : ℚ) / den - n| ≠ 1 / 2 := by
    intro hn htie
    have := heven htie
    rw [Int.even_coe_nat, Nat.even_iff] at this
    omega
  rw [roundHalfEven_eq hden (n := n) (by linarith) (by linarith)]
  intro hn
  have hstrict := abs_lt.mp (lt_of_le_of_ne (abs_le.mpr ⟨hlow, hhigh⟩) (hodd hn))
  exact ⟨by linarith [hstrict.1], by linarith [hstrict.2]⟩

/-! ## The rounded number -/

/-- The doubles around a number are the multiples of two to this power. -/
def spacing (q : ℚ) : ℤ :=
  max (-1074) (Int.log 2 |q| - 52)

/-- The number rounded to a multiple of its spacing. -/
def rounded (q : ℚ) : ℚ :=
  nearestInteger (q / 2 ^ spacing q) * 2 ^ spacing q

variable {q : ℚ}

@[simp] theorem spacing_neg (q : ℚ) : spacing (-q) = spacing q := by
  rw [spacing, spacing, abs_neg]

@[simp] theorem rounded_neg (q : ℚ) : rounded (-q) = -rounded q := by
  rw [rounded, rounded, spacing_neg, neg_div, nearestInteger_neg, Int.cast_neg, neg_mul]

@[simp] theorem rounded_zero : rounded 0 = 0 := by
  have hzero : nearestInteger 0 = 0 := nearestInteger_intCast 0
  rw [rounded, zero_div, hzero, Int.cast_zero, zero_mul]

theorem neg_1074_le_spacing (q : ℚ) : -1074 ≤ spacing q :=
  le_max_left _ _

/-- A number has at most 53 bits before the place that it is rounded to. -/
theorem abs_lt_spacing (q : ℚ) : |q| < 2 ^ 53 * 2 ^ spacing q := by
  have hlog : Int.log 2 |q| + 1 ≤ ((53 : ℕ) : ℤ) + spacing q := by
    unfold spacing
    omega
  calc |q| < (2 : ℚ) ^ (Int.log 2 |q| + 1) := Int.lt_zpow_succ_log_self Nat.one_lt_two _
    _ ≤ 2 ^ (((53 : ℕ) : ℤ) + spacing q) := zpow_le_zpow_right₀ one_le_two hlog
    _ = 2 ^ 53 * 2 ^ spacing q := by rw [zpow_add₀ two_ne_zero, zpow_natCast]

/-- A number has 53 bits before that place, unless the place is the last one. -/
theorem spacing_le_abs (hq : q ≠ 0) (hspacing : -1074 < spacing q) :
    2 ^ 52 * 2 ^ spacing q ≤ |q| := by
  have hlog : ((52 : ℕ) : ℤ) + spacing q = Int.log 2 |q| := by
    unfold spacing at hspacing ⊢
    omega
  calc (2 : ℚ) ^ 52 * 2 ^ spacing q = 2 ^ Int.log 2 |q| := by
        rw [← hlog, zpow_add₀ two_ne_zero, zpow_natCast]
    _ ≤ |q| := Int.zpow_log_le_self Nat.one_lt_two (abs_pos.mpr hq)

/-- A number with at most 53 bits before a place is rounded to that place, or behind it. -/
theorem spacing_le {e : ℤ} (he : -1074 ≤ e) (hq : q ≠ 0) (hlt : |q| < 2 ^ 53 * 2 ^ e) :
    spacing q ≤ e := by
  have hpower : (2 : ℚ) ^ 53 * 2 ^ e = 2 ^ (((53 : ℕ) : ℤ) + e) := by
    rw [zpow_add₀ two_ne_zero, zpow_natCast]
  rw [hpower] at hlt
  have hlog := (Int.lt_zpow_iff_log_lt Nat.one_lt_two (abs_pos.mpr hq)).mp hlt
  unfold spacing
  omega

/-- Larger magnitudes have larger spacings. -/
theorem spacing_mono {q' : ℚ} (hq : 0 < q) (hle : q ≤ q') : spacing q ≤ spacing q' := by
  refine spacing_le (neg_1074_le_spacing q') hq.ne' ?_
  calc |q| ≤ |q'| := abs_le_abs_of_nonneg hq.le hle
    _ < 2 ^ 53 * 2 ^ spacing q' := abs_lt_spacing q'

/-- A number that is not negative is not rounded to one that is. -/
theorem rounded_nonneg (hq : 0 ≤ q) : 0 ≤ rounded q := by
  have hmono := nearestInteger_mono (show ((0 : ℤ) : ℚ) ≤ q / 2 ^ spacing q by positivity)
  rw [nearestInteger_intCast] at hmono
  have hcast : (0 : ℚ) ≤ nearestInteger (q / 2 ^ spacing q) := by exact_mod_cast hmono
  exact mul_nonneg hcast (by positivity)

/-- Rounding does not leave the binade, except for the power of two above it. -/
theorem rounded_le_spacing (q : ℚ) : rounded q ≤ 2 ^ 53 * 2 ^ spacing q := by
  have hpos : (0 : ℚ) < 2 ^ spacing q := by positivity
  have hle : q / 2 ^ spacing q ≤ ((2 ^ 53 : ℤ) : ℚ) := by
    rw [div_le_iff₀ hpos]
    push_cast
    exact (le_abs_self q).trans (abs_lt_spacing q).le
  have hmono := nearestInteger_mono hle
  rw [nearestInteger_intCast] at hmono
  have hcast : (nearestInteger (q / 2 ^ spacing q) : ℚ) ≤ 2 ^ 53 := by exact_mod_cast hmono
  exact mul_le_mul_of_nonneg_right hcast hpos.le

/-- Rounding does not go below the binade. -/
theorem spacing_le_rounded (hq : 0 < q) (hspacing : -1074 < spacing q) :
    2 ^ 52 * 2 ^ spacing q ≤ rounded q := by
  have hpos : (0 : ℚ) < 2 ^ spacing q := by positivity
  have hle : ((2 ^ 52 : ℤ) : ℚ) ≤ q / 2 ^ spacing q := by
    rw [le_div_iff₀ hpos]
    push_cast
    exact (spacing_le_abs hq.ne' hspacing).trans_eq (abs_of_pos hq)
  have hmono := nearestInteger_mono hle
  rw [nearestInteger_intCast] at hmono
  have hcast : (2 ^ 52 : ℚ) ≤ nearestInteger (q / 2 ^ spacing q) := by exact_mod_cast hmono
  exact mul_le_mul_of_nonneg_right hcast hpos.le

/-- Rounding keeps the order of positive numbers. -/
theorem rounded_le_rounded {q' : ℚ} (hq : 0 < q) (hle : q ≤ q') : rounded q ≤ rounded q' := by
  rcases (spacing_mono hq hle).lt_or_eq with hless | heq
  · -- The power of two between the binades parts the two results.
    have hstep : (2 : ℚ) ^ (spacing q + 1) ≤ 2 ^ spacing q' :=
      zpow_le_zpow_right₀ one_le_two (by omega)
    rw [zpow_add_one₀ two_ne_zero] at hstep
    calc rounded q ≤ 2 ^ 53 * 2 ^ spacing q := rounded_le_spacing q
      _ = 2 ^ 52 * (2 ^ spacing q * 2) := by ring
      _ ≤ 2 ^ 52 * 2 ^ spacing q' := by gcongr
      _ ≤ rounded q' :=
        spacing_le_rounded (hq.trans_le hle) ((neg_1074_le_spacing q).trans_lt hless)
  · unfold rounded
    rw [heq]
    have hpos : (0 : ℚ) < 2 ^ spacing q' := by positivity
    have hmono := nearestInteger_mono (div_le_div_of_nonneg_right hle hpos.le)
    gcongr

/-- Rounding keeps the order. -/
theorem rounded_mono : Monotone rounded := by
  intro q q' hle
  rcases lt_or_ge 0 q with hpos | hnonpos
  · exact rounded_le_rounded hpos hle
  · rcases lt_or_ge q' 0 with hneg' | hnonneg'
    · have h := rounded_le_rounded (neg_pos.mpr hneg') (neg_le_neg hle)
      rwa [rounded_neg, rounded_neg, neg_le_neg_iff] at h
    · have h := rounded_nonneg (neg_nonneg.mpr hnonpos)
      rw [rounded_neg, neg_nonneg] at h
      exact h.trans (rounded_nonneg hnonneg')

/-! ## Numbers with few bits -/

/-- A number with at most 53 bits, the last of them not behind the last place of a double. -/
def IsShort (q : ℚ) : Prop :=
  ∃ (n : ℤ) (e : ℤ), |n| ≤ 2 ^ 53 ∧ -1074 ≤ e ∧ q = n * 2 ^ e

/-- A number with few bits, at least as large as another one's binade, is a multiple of that
one's spacing. -/
theorem exists_multiple_of_zpow_le {m : ℤ} {e k : ℤ} (hle : k ≤ e) :
    ∃ n : ℤ, (m : ℚ) * 2 ^ e = n * 2 ^ k := by
  refine ⟨m * 2 ^ (e - k).toNat, ?_⟩
  have hsplit : e = ((e - k).toNat : ℤ) + k := by omega
  push_cast
  rw [mul_assoc, ← zpow_natCast (2 : ℚ), ← zpow_add₀ two_ne_zero, ← hsplit]

/-- A short number is a multiple of its own spacing. -/
theorem IsShort.exists_multiple (h : IsShort q) : ∃ n : ℤ, q = n * 2 ^ spacing q := by
  obtain ⟨n, e, hn, he, hvalue⟩ := h
  rcases eq_or_ne q 0 with hzero | hne
  · exact ⟨0, by rw [hzero, Int.cast_zero, zero_mul]⟩
  have hpos : (0 : ℚ) < 2 ^ e := by positivity
  have habs : |q| = |(n : ℚ)| * 2 ^ e := by
    rw [hvalue, abs_mul, abs_of_pos hpos]
  rcases hn.lt_or_eq with hless | heq
  · have hlt : |q| < 2 ^ 53 * 2 ^ e := by
      rw [habs]
      have : |(n : ℚ)| < 2 ^ 53 := by exact_mod_cast hless
      gcongr
    obtain ⟨m, hm⟩ := exists_multiple_of_zpow_le (m := n) (spacing_le he hne hlt)
    exact ⟨m, hvalue.trans hm⟩
  · -- The power of two above is a multiple of a spacing that is twice as wide.
    have hlt : |q| < 2 ^ 53 * 2 ^ (e + 1) := by
      rw [habs, zpow_add_one₀ two_ne_zero]
      have : |(n : ℚ)| = 2 ^ 53 := by exact_mod_cast heq
      rw [this]
      linarith [mul_pos (show (0 : ℚ) < 2 ^ 53 by positivity) hpos]
    have hspacing := spacing_le (by omega) hne hlt
    have hsign : n = 2 ^ 53 ∨ n = -2 ^ 53 := (abs_eq (by positivity)).mp heq
    have hhalf : ∃ half : ℤ, q = half * 2 ^ (e + 1) := by
      rcases hsign with rfl | rfl
      · exact ⟨2 ^ 52, by rw [hvalue, zpow_add_one₀ two_ne_zero]; push_cast; ring⟩
      · exact ⟨-2 ^ 52, by rw [hvalue, zpow_add_one₀ two_ne_zero]; push_cast; ring⟩
    obtain ⟨half, hhalf⟩ := hhalf
    obtain ⟨m, hm⟩ := exists_multiple_of_zpow_le (m := half) hspacing
    exact ⟨m, hhalf.trans hm⟩

/-- A short number is a multiple of every unit that leaves it 53 bits. -/
theorem IsShort.exists_multiple_of_le {e : ℤ} (h : IsShort q) (hq : 2 ^ 52 * 2 ^ e ≤ |q|) :
    ∃ n : ℤ, q = n * 2 ^ e := by
  obtain ⟨m, hm⟩ := h.exists_multiple
  have hpower (k : ℕ) (e : ℤ) : (2 : ℚ) ^ k * 2 ^ e = 2 ^ ((k : ℤ) + e) := by
    rw [zpow_add₀ two_ne_zero, zpow_natCast]
  have hless := hq.trans_lt (abs_lt_spacing q)
  rw [hpower, hpower] at hless
  have hspacing := (zpow_lt_zpow_iff_right₀ one_lt_two).mp hless
  have hle : e ≤ spacing q := by
    push_cast at hspacing
    omega
  obtain ⟨n, hn⟩ := exists_multiple_of_zpow_le (m := m) hle
  exact ⟨n, hm.trans hn⟩

/-- A short number is not changed. -/
theorem IsShort.rounded_eq (h : IsShort q) : rounded q = q := by
  obtain ⟨n, hn⟩ := h.exists_multiple
  have hpos : (2 : ℚ) ^ spacing q ≠ 0 := by positivity
  have hquotient : q / 2 ^ spacing q = n := by
    rw [div_eq_iff hpos]
    exact hn
  rw [rounded, hquotient, nearestInteger_intCast, ← hn]

/-- What is at most a short number is not rounded past it. -/
theorem IsShort.rounded_le {bound : ℚ} (h : IsShort bound) (hq : q ≤ bound) :
    rounded q ≤ bound := by
  rw [← h.rounded_eq]
  exact rounded_mono hq

/-- What is at least a short number is not rounded past it. -/
theorem IsShort.le_rounded {bound : ℚ} (h : IsShort bound) (hq : bound ≤ q) :
    bound ≤ rounded q := by
  rw [← h.rounded_eq]
  exact rounded_mono hq

/-- The other sign takes no bits. -/
theorem IsShort.neg (h : IsShort q) : IsShort (-q) := by
  obtain ⟨n, e, hn, he, rfl⟩ := h
  exact ⟨-n, e, by rwa [abs_neg], he, by push_cast; ring⟩

theorem IsShort.abs (h : IsShort q) : IsShort |q| := by
  rcases abs_choice q with hsame | hneg
  · rwa [hsame]
  · rw [hneg]
    exact h.neg

/-- A magnitude of at most a short number is not rounded past it. -/
theorem IsShort.abs_rounded_le {bound : ℚ} (h : IsShort bound) (hq : |q| ≤ bound) :
    |rounded q| ≤ bound := by
  obtain ⟨hlow, hhigh⟩ := abs_le.mp hq
  exact abs_le.mpr ⟨h.neg.le_rounded hlow, h.rounded_le hhigh⟩

/-- A magnitude of at least a short number is not rounded past it. -/
theorem IsShort.le_abs_rounded {bound : ℚ} (h : IsShort bound) (hq : bound ≤ |q|) :
    bound ≤ |rounded q| := by
  rcases le_abs.mp hq with hpos | hneg
  · exact (h.le_rounded hpos).trans (le_abs_self _)
  · have hrounded := h.le_rounded hneg
    rw [rounded_neg] at hrounded
    exact hrounded.trans (neg_le_abs _)

/-- A rounded number is short. -/
theorem isShort_rounded (q : ℚ) : IsShort (rounded q) := by
  refine ⟨nearestInteger (q / 2 ^ spacing q), spacing q, ?_, neg_1074_le_spacing q, rfl⟩
  have hpos : (0 : ℚ) < 2 ^ spacing q := by positivity
  have habove := rounded_le_spacing q
  have hbelow := rounded_le_spacing (-q)
  rw [rounded_neg, spacing_neg, neg_le] at hbelow
  rw [← neg_mul] at hbelow
  have hupper := le_of_mul_le_mul_right habove hpos
  have hlower := le_of_mul_le_mul_right hbelow hpos
  exact abs_le.mpr ⟨by exact_mod_cast hlower, by exact_mod_cast hupper⟩

/-- An integer of at most 53 bits is short. -/
theorem isShort_intCast {n : ℤ} (hn : |n| ≤ 2 ^ 53) : IsShort n :=
  ⟨n, 0, hn, by omega, by rw [zpow_zero, mul_one]⟩

/-- A power of two is short. -/
theorem isShort_two_pow (k : ℕ) : IsShort (2 ^ k) :=
  ⟨1, k, by norm_num, by omega, by rw [Int.cast_one, one_mul, zpow_natCast]⟩

/-! ## The error -/

/-- The error is at most half of the spacing. -/
theorem abs_rounded_sub_le_half (q : ℚ) : |rounded q - q| ≤ 2 ^ spacing q / 2 := by
  obtain ⟨hnear, -⟩ := isNearestInteger_nearestInteger (q / 2 ^ spacing q)
  exact (abs_mul_sub_le_of_le_half (by positivity) hnear).trans_eq (by ring)

/-- The error is at most half of a spacing that is not too narrow for the number. -/
theorem abs_rounded_sub_le_of_lt {e : ℤ} (he : -1074 ≤ e) (hlt : |q| < 2 ^ 53 * 2 ^ e) :
    |rounded q - q| ≤ 2 ^ e / 2 := by
  rcases eq_or_ne q 0 with rfl | hne
  · rw [rounded_zero, sub_self, abs_zero]
    positivity
  · have hspacing := spacing_le he hne hlt
    calc |rounded q - q| ≤ 2 ^ spacing q / 2 := abs_rounded_sub_le_half q
      _ ≤ 2 ^ e / 2 := by gcongr; norm_num

/-- The error is at most the number times `2 ^ (-53)`, for a number that is not subnormal. -/
theorem abs_rounded_sub_le (hq : (2 : ℚ) ^ (-1022 : ℤ) ≤ |q|) :
    |rounded q - q| ≤ |q| / 2 ^ 53 := by
  have hne : q ≠ 0 := by
    rintro rfl
    rw [abs_zero] at hq
    exact absurd (show (0 : ℚ) < 2 ^ (-1022 : ℤ) by positivity) (not_lt.mpr hq)
  have hlow : (2 : ℚ) ^ 52 * 2 ^ spacing q ≤ |q| := by
    rcases (neg_1074_le_spacing q).lt_or_eq with hnormal | hleast
    · exact spacing_le_abs hne hnormal
    · rw [← hleast]
      refine le_trans (le_of_eq ?_) hq
      rw [← zpow_natCast, ← zpow_add₀ two_ne_zero]
      rfl
  refine (abs_rounded_sub_le_half q).trans ?_
  rw [div_le_div_iff₀ two_pos (by positivity)]
  linarith

/-- The error of any number is at most that of a normal one and half of the least double. -/
theorem abs_rounded_sub_le_add (q : ℚ) :
    |rounded q - q| ≤ |q| / 2 ^ 53 + 2 ^ (-1075 : ℤ) := by
  rcases eq_or_ne q 0 with rfl | hne
  · rw [rounded_zero, sub_self, abs_zero]
    positivity
  have hleast : (0 : ℚ) < 2 ^ (-1075 : ℤ) := by positivity
  have hrelative : 0 ≤ |q| / 2 ^ 53 := by positivity
  refine (abs_rounded_sub_le_half q).trans ?_
  rcases (neg_1074_le_spacing q).lt_or_eq with hnormal | hsubnormal
  · have hlow := spacing_le_abs hne hnormal
    have hhalf : (2 : ℚ) ^ spacing q / 2 ≤ |q| / 2 ^ 53 := by
      rw [div_le_div_iff₀ two_pos (by positivity)]
      linarith
    linarith
  · have hhalf : (2 : ℚ) ^ spacing q / 2 = 2 ^ (-1075 : ℤ) := by
      rw [← hsubnormal, div_eq_iff two_ne_zero, ← zpow_add_one₀ two_ne_zero]
      rfl
    linarith

/-- Two multiples of a unit that are less than one apart are the same. -/
theorem eq_of_abs_sub_lt {unit q q' : ℚ} {n n' : ℤ} (hunit : 0 < unit) (hq : q = n * unit)
    (hq' : q' = n' * unit) (hclose : |q - q'| < unit) : q = q' := by
  have hfactored : q - q' = ((n - n' : ℤ) : ℚ) * unit := by
    rw [hq, hq']
    push_cast
    ring
  rw [hfactored, abs_mul, abs_of_pos hunit, mul_lt_iff_lt_one_left hunit] at hclose
  have hsame : n - n' = 0 := Int.abs_lt_one_iff.mp (by exact_mod_cast hclose)
  rw [hq, hq', sub_eq_zero.mp hsame]

/-- No short number is nearer. -/
theorem abs_rounded_sub_le_of_isShort {q' : ℚ} (h : IsShort q') : |rounded q - q| ≤ |q' - q| := by
  -- The negative numbers are those with the other sign.
  wlog hq : 0 ≤ q generalizing q q' with hpositive
  · have := hpositive h.neg (by linarith : 0 ≤ -q)
    rwa [rounded_neg, neg_sub_neg, neg_sub_neg, abs_sub_comm q, abs_sub_comm q] at this
  have hpos : (0 : ℚ) < 2 ^ spacing q := by positivity
  have hmultiple (n : ℤ) : |rounded q - q| ≤ |n * 2 ^ spacing q - q| := by
    have hfactored (r : ℚ) : r * 2 ^ spacing q - q = (r - q / 2 ^ spacing q) * 2 ^ spacing q := by
      field_simp
    rw [rounded, hfactored, hfactored, abs_mul, abs_mul]
    exact mul_le_mul_of_nonneg_right (abs_nearestInteger_sub_le _ n) (abs_nonneg _)
  rcases eq_or_ne q 0 with rfl | hne
  · rw [rounded_zero, sub_self, abs_zero]
    exact abs_nonneg _
  by_cases hcoarse : spacing q ≤ spacing q'
  · obtain ⟨m, hm⟩ := h.exists_multiple
    obtain ⟨n, hn⟩ := exists_multiple_of_zpow_le (m := m) hcoarse
    rw [hm, hn]
    exact hmultiple n
  · -- A number of a finer spacing lies below the binade, and the power of two is nearer.
    have hlow := spacing_le_abs hne ((neg_1074_le_spacing q').trans_lt (not_le.mp hcoarse))
    rw [abs_of_nonneg hq] at hlow
    have hbelow : q' ≤ 2 ^ 52 * 2 ^ spacing q := by
      have hstep : (2 : ℚ) ^ (spacing q' + 1) ≤ 2 ^ spacing q :=
        zpow_le_zpow_right₀ one_le_two (by omega)
      rw [zpow_add_one₀ two_ne_zero] at hstep
      calc q' ≤ |q'| := le_abs_self q'
        _ ≤ 2 ^ 53 * 2 ^ spacing q' := (abs_lt_spacing q').le
        _ = 2 ^ 52 * (2 ^ spacing q' * 2) := by ring
        _ ≤ 2 ^ 52 * 2 ^ spacing q := by gcongr
    have hpower := hmultiple (2 ^ 52)
    rw [Int.cast_pow, Int.cast_ofNat, abs_of_nonpos (sub_nonpos.mpr hlow)] at hpower
    rw [abs_of_nonpos (sub_nonpos.mpr (hbelow.trans hlow))]
    linarith

end Reckoner.Binary64
