import Mathlib.Algebra.Order.Group.MinMax
import Mathlib.Data.Nat.Factorization.Basic
import Reckoner.Answer.Exact
import Reckoner.Proofs.Answer.Grouping
import Reckoner.Proofs.Binary64.Operations

/-!
# Which answers are marked as repeating

The mark of a repeating expansion depends on the least denominator over which the double is a
fraction up to float noise. This file finds that denominator from the fraction that the double
stands for. What counts as noise is a billionth of the scaled value, so that the fraction's own
denominator is always accepted, and a smaller one is when the value is large enough.
-/

namespace Reckoner.Answer

open Binary64
open Decimal (signed)

/-! ## Denominators with a repeating expansion -/

/-- A denominator of at most a thousand divides no power of ten just when it has a prime factor
other than those of ten. -/
theorem isRepeatingDenominator_iff {q : Nat} (hq : 0 < q) (hmax : q ≤ 1000) :
    isRepeatingDenominator q = true ↔ ∃ r, r.Prime ∧ r ∣ q ∧ r ≠ 2 ∧ r ≠ 5 := by
  have hten : 10 ^ 9 = 2 ^ 9 * 5 ^ 9 := by norm_num
  rw [isRepeatingDenominator, bne_iff_ne, Nat.pow_eq, ne_eq, ← Nat.dvd_iff_mod_eq_zero]
  constructor
  · intro hnot
    by_contra hnone
    push Not at hnone
    refine hnot ((Nat.dvd_iff_prime_pow_dvd_dvd _ _).mpr fun r k hr hpower => ?_)
    rcases Nat.eq_zero_or_pos k with rfl | hk
    · exact one_dvd _
    -- The power is below `2 ^ 10`, so that its exponent is at most nine.
    have hexponent : k ≤ 9 := by
      by_contra hmore
      have hle : 2 ^ 10 ≤ r ^ k :=
        (Nat.pow_le_pow_right (by decide) (by omega)).trans (Nat.pow_le_pow_left hr.two_le k)
      have := (Nat.le_of_dvd hq hpower)
      omega
    have hfactor := (dvd_pow_self r hk.ne').trans hpower
    rw [hten]
    by_cases htwo : r = 2
    · rw [htwo]
      exact dvd_mul_of_dvd_left (pow_dvd_pow 2 hexponent) _
    · rw [hnone r hr hfactor htwo]
      exact dvd_mul_of_dvd_right (pow_dvd_pow 5 hexponent) _
  · rintro ⟨r, hr, hfactor, htwo, hfive⟩ hdvd
    have hpower := hfactor.trans hdvd
    rw [hten] at hpower
    rcases (Nat.Prime.dvd_mul hr).mp hpower with hleft | hright
    · exact htwo ((Nat.prime_dvd_prime_iff_eq hr Nat.prime_two).mp (hr.dvd_of_dvd_pow hleft))
    · exact hfive ((Nat.prime_dvd_prime_iff_eq hr Nat.prime_five).mp (hr.dvd_of_dvd_pow hright))

/-! ## The least denominator -/

variable {x : Float} {c : Nat} {t : ℚ}

/-- The larger of one and a size, chosen by comparing the doubles. -/
theorem toRat_max_one_abs (hx : x.isFinite = true) :
    (if x.abs ≤ 1.0 then 1.0 else x.abs).isFinite = true ∧
      toRat (if x.abs ≤ 1.0 then 1.0 else x.abs) = max 1 |toRat x| := by
  obtain ⟨hafinite, havalue⟩ := toRat_abs hx
  split
  · next hle =>
    rw [le_iff hafinite isFinite_one, toRat_one, havalue] at hle
    exact ⟨isFinite_one, by rw [toRat_one, max_eq_left hle]⟩
  · next hmore =>
    rw [le_iff hafinite isFinite_one, toRat_one, havalue, not_le] at hmore
    exact ⟨hafinite, by rw [havalue, max_eq_right hmore.le]⟩

/-- What is computed for a denominator: the multiple, rounded, its nearest integer, and the
comparison of their difference with the noise that is allowed. -/
theorem isFractionOver_eq (hx : x.isFinite = true) (hsize : |toRat x| ≤ 2 ^ 50) (hc : c ≤ 1000) :
    ∃ n : ℤ, |rounded (toRat x * c) - n| ≤ 1 / 2 ∧
      (isFractionOver x c = true ↔ |rounded (rounded (toRat x * c) - n)| ≤
        rounded (toRat 1e-9 * max 1 |rounded (toRat x * c)|)) := by
  have hc' : (c : ℚ) ≤ 1000 := by exact_mod_cast hc
  obtain ⟨hcfinite, hcvalue⟩ := toRat_ofNat (show c ≤ 2 ^ 53 by omega)
  have hproduct : |toRat x * c| ≤ 2 ^ 60 := by
    rw [abs_mul, Nat.abs_cast]
    calc |toRat x| * c ≤ 2 ^ 50 * 1000 := by gcongr
      _ ≤ 2 ^ 60 := by norm_num
  have hscaled := isRounded_mul hx hcfinite
  rw [hcvalue] at hscaled
  obtain ⟨hsfinite, hsvalue, hsmax⟩ := hscaled.of_abs_le_two_pow (by norm_num) hproduct
  obtain ⟨hnfinite, n, hnvalue, hnear⟩ := toRat_roundAwayFromZero hsfinite
  have hsub := isRounded_sub hsfinite hnfinite
  unfold isFractionOver
  dsimp only
  generalize x * Float.ofNat c = scaled at *
  generalize roundAwayFromZero scaled = nearest at *
  rw [hsvalue] at hnear hsub
  rw [hnvalue] at hsub
  generalize rounded (toRat x * c) = s at *
  obtain ⟨hdfinite, hdvalue, -⟩ := hsub.of_abs_le_two_pow (k := 0) (by norm_num) (by linarith)
  obtain ⟨hafinite, havalue⟩ := toRat_abs hdfinite
  obtain ⟨hlfinite, hlvalue⟩ := toRat_max_one_abs hsfinite
  rw [hsvalue] at hlvalue
  generalize (if scaled.abs ≤ 1.0 then 1.0 else scaled.abs) = larger at *
  have hbillionth : (1e-9 : Float).isFinite = true ∧ 0 ≤ toRat 1e-9 ∧ toRat 1e-9 ≤ 1 := by
    decide +kernel
  have hnoise := isRounded_mul hbillionth.1 hlfinite
  rw [hlvalue] at hnoise
  have hnoisemax : |toRat 1e-9 * max 1 (|s|)| ≤ 2 ^ 60 := by
    have hmax : max 1 |s| ≤ 2 ^ 60 := max_le (by norm_num) hsmax
    rw [abs_of_nonneg (mul_nonneg hbillionth.2.1 (by positivity))]
    exact (mul_le_of_le_one_left (by positivity) hbillionth.2.2).trans hmax
  obtain ⟨htfinite, htvalue, -⟩ := hnoise.of_abs_le_two_pow (by norm_num) hnoisemax
  refine ⟨n, hnear, ?_⟩
  rw [decide_eq_true_iff, le_iff hafinite htfinite, havalue, hdvalue, htvalue]

/-- The error of rounding, with a power of ten for what the least double adds to it. -/
theorem abs_rounded_sub_le_decimal (q : ℚ) : |rounded q - q| ≤ |q| / 2 ^ 53 + 1 / 10 ^ 30 := by
  refine (abs_rounded_sub_le_add q).trans (add_le_add_right ?_ _)
  calc (2 : ℚ) ^ (-1075 : ℤ) ≤ 2 ^ (-100 : ℤ) := zpow_le_zpow_right₀ one_le_two (by norm_num)
    _ ≤ 1 / 10 ^ 30 := by norm_num

/-- A double near a number, neither of them very small or very large. -/
structure StandsNear (x : Float) (t : ℚ) : Prop where
  isFinite : x.isFinite = true
  near : |toRat x - t| ≤ |t| / 2 ^ 53
  lower : 1 / 1000 ≤ |t|
  upper : |t| ≤ 10 ^ 15

theorem StandsNear.abs_toRat_le (h : StandsNear x t) : |toRat x| ≤ 2 ^ 50 := by
  have hsize := abs_sub_abs_le_abs_sub (toRat x) t
  linarith [h.near, h.upper]

/-- The rounded multiple of the double is near the multiple of the number. -/
theorem StandsNear.abs_scaled_sub_le (h : StandsNear x t) (hc : 1 ≤ c) :
    |rounded (toRat x * c) - t * c| ≤ 3 / 10 ^ 16 * |t * c| := by
  have hc' : (1 : ℚ) ≤ c := by exact_mod_cast hc
  have hmultiple : |toRat x * c - t * c| ≤ |t * c| / 2 ^ 53 := by
    rw [← sub_mul, abs_mul, abs_mul, Nat.abs_cast, mul_div_right_comm]
    exact mul_le_mul_of_nonneg_right h.near (by positivity)
  have hlarge : 1 / 1000 ≤ |t * c| := by
    rw [abs_mul, Nat.abs_cast]
    nlinarith [h.lower]
  have hround := abs_rounded_sub_le_decimal (toRat x * c)
  have hsize := abs_sub_abs_le_abs_sub (toRat x * c) (t * c)
  have htriangle := abs_sub_le (rounded (toRat x * c)) (toRat x * c) (t * c)
  linarith

/-- The noise that is allowed is a billionth of the multiple, or of one. -/
theorem StandsNear.noise_bounds (h : StandsNear x t) (hc : 1 ≤ c) :
    (1 / 10 ^ 9 - 1 / 10 ^ 24) * max 1 |t * c| ≤
        rounded (toRat 1e-9 * max 1 |rounded (toRat x * c)|) ∧
      rounded (toRat 1e-9 * max 1 |rounded (toRat x * c)|) ≤
        (1 / 10 ^ 9 + 1 / 10 ^ 24) * max 1 |t * c| := by
  have hscaled := h.abs_scaled_sub_le hc
  generalize rounded (toRat x * c) = s at *
  have hsizes : |max 1 (|s|) - max 1 (|t * c|)| ≤ |s - t * c| := by
    rw [max_comm, max_comm 1 (|t * c|)]
    exact (abs_max_sub_max_le_abs _ _ 1).trans (abs_abs_sub_abs_le s (t * c))
  have hone : 1 ≤ max 1 (|t * c|) := le_max_left _ _
  have hsize : |t * c| ≤ max 1 (|t * c|) := le_max_right _ _
  generalize max 1 (|t * c|) = size at *
  have hone' : 1 ≤ max 1 (|s|) := le_max_left _ _
  generalize max 1 (|s|) = size' at *
  obtain ⟨hbillionth, hbillionth'⟩ : 1 / 10 ^ 9 - 1 / 10 ^ 25 ≤ toRat 1e-9 ∧
      toRat 1e-9 ≤ 1 / 10 ^ 9 + 1 / 10 ^ 25 := by
    decide +kernel
  have hlow := mul_le_mul_of_nonneg_right hbillionth (zero_le_one.trans hone')
  have hhigh := mul_le_mul_of_nonneg_right hbillionth' (zero_le_one.trans hone')
  have hround := abs_rounded_sub_le_decimal (toRat 1e-9 * size')
  rw [abs_of_nonneg (by linarith : 0 ≤ toRat 1e-9 * size')] at hround
  obtain ⟨hround₁, hround₂⟩ := abs_le.mp hround
  obtain ⟨hsizes₁, hsizes₂⟩ := abs_le.mp hsizes
  constructor <;> linarith

/-- A multiple of the number is near an integer, within a share of the multiple, or of one. -/
def IsNearlyOver (t : ℚ) (c : ℕ) (share : ℚ) : Prop :=
  ∃ n : ℤ, |t * c - n| ≤ share * max 1 |t * c|

/-- A denominator that is accepted takes the number near an integer. -/
theorem StandsNear.isNearlyOver_of_isFractionOver (h : StandsNear x t) (hc : 1 ≤ c)
    (hmax : c ≤ 1000) (haccepted : isFractionOver x c = true) :
    IsNearlyOver t c (1000001 / 10 ^ 15) := by
  obtain ⟨-, hhigh⟩ := h.noise_bounds hc
  have hscaled := h.abs_scaled_sub_le hc
  obtain ⟨n, -, heq⟩ := isFractionOver_eq h.isFinite h.abs_toRat_le hmax
  have hdifference := (heq.mp haccepted).trans hhigh
  generalize rounded (toRat x * c) = s at *
  have hround := abs_rounded_sub_le_decimal (s - n)
  have hback := abs_sub_abs_le_abs_sub (s - n) (rounded (s - n))
  rw [abs_sub_comm] at hscaled
  rw [abs_sub_comm (s - n)] at hback
  have htriangle := abs_sub_le (t * c) s n
  have hone : 1 ≤ max 1 (|t * c|) := le_max_left _ _
  have hsize : |t * c| ≤ max 1 (|t * c|) := le_max_right _ _
  refine ⟨n, ?_⟩
  generalize max 1 (|t * c|) = size at *
  linarith

/-- A denominator that takes the number near enough to an integer is accepted. -/
theorem StandsNear.isFractionOver_of_isNearlyOver (h : StandsNear x t) (hc : 1 ≤ c)
    (hmax : c ≤ 1000) (hover : IsNearlyOver t c (999999 / 10 ^ 15)) :
    isFractionOver x c = true := by
  obtain ⟨n, hnear⟩ := hover
  obtain ⟨hlow, -⟩ := h.noise_bounds hc
  have hscaled := h.abs_scaled_sub_le hc
  obtain ⟨n', hhalf, heq⟩ := isFractionOver_eq h.isFinite h.abs_toRat_le hmax
  refine heq.mpr (le_trans ?_ hlow)
  generalize rounded (toRat x * c) = s at *
  -- No integer is nearer to the multiple than the one it is rounded to.
  have hnearest := abs_sub_le_of_le_half hhalf n
  have hround := abs_rounded_sub_le_decimal (s - n')
  have hback := abs_sub_abs_le_abs_sub (rounded (s - n')) (s - n')
  have htriangle := abs_sub_le s (t * c) n
  have hone : 1 ≤ max 1 (|t * c|) := le_max_left _ _
  have hsize : |t * c| ≤ max 1 (|t * c|) := le_max_right _ _
  generalize max 1 (|t * c|) = size at *
  linarith

/-- A double nearest to a fraction stands near it. -/
theorem standsNear_of_isNearest {p : ℤ} {q : ℕ} (hq : 0 < q) (hmax : q ≤ 1000) (hp : p ≠ 0)
    (hhigh : |(p : ℚ) / q| < 10 ^ 15) (hx : IsNearest ((p : ℚ) / q) x) :
    StandsNear x ((p : ℚ) / q) := by
  have hq' : (0 : ℚ) < q := by exact_mod_cast hq
  have hmax' : (q : ℚ) ≤ 1000 := by exact_mod_cast hmax
  have hone : (1 : ℚ) ≤ |(p : ℚ)| := by exact_mod_cast Int.one_le_abs hp
  have hlower : 1 / 1000 ≤ |(p : ℚ) / q| := by
    rw [abs_div, Nat.abs_cast]
    exact div_le_div₀ (by positivity) hone hq' hmax'
  have hnormal : (2 : ℚ) ^ (-1022 : ℤ) ≤ |(p : ℚ) / q| := by
    refine le_trans ?_ hlower
    calc (2 : ℚ) ^ (-1022 : ℤ) ≤ 2 ^ (-10 : ℤ) := zpow_le_zpow_right₀ one_le_two (by norm_num)
      _ ≤ 1 / 1000 := by norm_num
  refine ⟨hx.isFinite, ?_, hlower, hhigh.le⟩
  exact (hx.abs_sub_le (k := 50) (by norm_num) (by linarith)).trans (abs_rounded_sub_le hnormal)

/-- The denominator that is found for a fraction is at most its own. -/
theorem exists_leastDenominator? {p : ℤ} {q : ℕ} (hq : 2 ≤ q) (hmax : q ≤ 1000)
    (h : StandsNear x ((p : ℚ) / q)) :
    ∃ d, leastDenominator? x = some d ∧ 2 ≤ d ∧ d ≤ q ∧ isFractionOver x d = true ∧
      ∀ c, 2 ≤ c → c < d → isFractionOver x c = false := by
  have hown : isFractionOver x q = true := by
    refine h.isFractionOver_of_isNearlyOver (by omega) hmax ⟨p, ?_⟩
    rw [div_mul_cancel₀ _ (by positivity), sub_self, abs_zero]
    positivity
  have hmem (c : ℕ) : c ∈ List.range' 2 (maxDenominator - 1) ↔ 2 ≤ c ∧ c ≤ 1000 := by
    rw [List.mem_range'_1, maxDenominator]
    omega
  cases hfound : leastDenominator? x with
  | none =>
    have hnone := List.find?_eq_none.mp hfound q ((hmem q).mpr ⟨hq, hmax⟩)
    exact absurd hown hnone
  | some d =>
    obtain ⟨haccepted, hin, hbefore⟩ := List.find?_range'_eq_some.mp hfound
    have hrejected (c : ℕ) (htwo : 2 ≤ c) (hless : c < d) : isFractionOver x c = false :=
      (Bool.not_eq_true' _).mp (hbefore c htwo hless)
    refine ⟨d, rfl, ((hmem d).mp hin).1, ?_, haccepted, hrejected⟩
    by_contra hmore
    exact absurd hown (by rw [hrejected q hq (by omega)]; decide)

/-! ## The mark -/

/-- A double without a fraction is an integer. -/
theorem exists_int_of_isIntegral {negative : Bool} {m : Nat} {e : ℤ}
    (hread : ofFloat x = .finite negative m e)
    (hintegral : (Binary64.finite negative m e).isIntegral = true) : ∃ n : ℤ, toRat x = n := by
  have hdvd : denominator e ∣ numerator m e :=
    dvd_mul_of_dvd_left (Nat.dvd_of_mod_eq_zero (beq_iff_eq.mp hintegral)) _
  have hden : (denominator e : ℚ) ≠ 0 := by exact_mod_cast (denominator_pos e).ne'
  obtain ⟨n, hn⟩ := hdvd
  refine ⟨(if negative then -1 else 1) * n, ?_⟩
  rw [toRat_of_ofFloat hread, hn, Nat.cast_mul, mul_div_cancel_left₀ _ hden]
  cases negative <;> simp

/-- For a number with a fraction and in the plain range, the denominator that is found decides. -/
theorem repeats_eq (hx : x.isFinite = true) (hfraction : ∀ n : ℤ, toRat x ≠ n)
    (hlow : 1 / 10 ^ 9 ≤ |toRat x|) (hhigh : |toRat x| < 10 ^ 15) {d : ℕ}
    (hd : leastDenominator? x = some d) : repeats x = isRepeatingDenominator d := by
  obtain ⟨negative, m, e, hread⟩ := isFinite_iff.mp hx
  have hintegral : (Binary64.finite negative m e).isIntegral = false := by
    by_contra hinteger
    obtain ⟨n, hn⟩ := exists_int_of_isIntegral hread (Bool.not_eq_false _ ▸ hinteger)
    exact hfraction n hn
  have habs := abs_toRat_of_ofFloat hread
  have hnum := numerator_pos_of_toRat_ne_zero hread (by exact_mod_cast hfraction 0)
  have hplain : isPlainMagnitude (numerator m e) (denominator e) = true := by
    rw [isPlainMagnitude_iff hnum (denominator_pos e), ← habs]
    exact ⟨le_trans (by norm_num) hlow, hhigh⟩
  unfold repeats
  rw [hread]
  dsimp only
  rw [hintegral, hplain, hd]
  rfl

/-! ## The end of a number text -/

/-- A text ends with a digit. -/
def EndsWithDigit (text : List Char) : Prop :=
  ∃ c, text.getLast? = some c ∧ c.isDigit = true

variable {text : List Char}

theorem endsWithDigit_of_isDigit (hne : text ≠ []) (hdigit : ∀ c ∈ text, c.isDigit = true) :
    EndsWithDigit text :=
  ⟨text.getLast hne, List.getLast?_eq_some_getLast hne, hdigit _ (List.getLast_mem hne)⟩

theorem EndsWithDigit.append (h : EndsWithDigit text) (before : List Char) :
    EndsWithDigit (before ++ text) := by
  obtain ⟨c, hlast, hc⟩ := h
  exact ⟨c, by rw [List.getLast?_append, hlast, Option.some_or], hc⟩

theorem EndsWithDigit.signed (h : EndsWithDigit text) (negative : Bool) :
    EndsWithDigit (signed negative text) := by
  cases negative with
  | true => exact h.append ['-']
  | false => exact h

/-- A numeral ends with a digit. -/
theorem DenotesAt.endsWithDigit {q : ℚ} (h : DenotesAt text q) : EndsWithDigit text := by
  obtain ⟨whole, fraction, hnumeral, -⟩ := h
  rw [hnumeral.text_eq]
  split
  · exact endsWithDigit_of_isDigit hnumeral.whole_ne_nil hnumeral.isDigit_whole
  · next hsome =>
    have hfraction : EndsWithDigit fraction := endsWithDigit_of_isDigit hsome
      fun c hc => hnumeral.isDigit c (List.mem_append_right whole hc)
    exact (hfraction.append ['.']).append whole

theorem EndsWithDigit.typographic (h : EndsWithDigit text) (print : PrintSettings) :
    EndsWithDigit (typographic print text) := by
  obtain ⟨c, hlast, hc⟩ := h
  unfold Answer.typographic
  split
  · next rest =>
    have hrest : EndsWithDigit rest := by
      refine ⟨c, ?_, hc⟩
      rw [List.getLast?_cons, Option.some.injEq] at hlast
      cases hbefore : rest.getLast? with
      | none =>
        rw [hbefore] at hlast
        rw [← hlast] at hc
        exact absurd hc (by decide)
      | some c' =>
        rw [hbefore] at hlast
        exact congrArg some hlast
    split
    · exact hrest.append ['−']
    · exact hrest.append ['-']
  · exact ⟨c, hlast, hc⟩

theorem endsWithDigit_trimFraction_withPoint (scaled places : Nat) :
    EndsWithDigit (trimFraction (Decimal.withPoint scaled places)) :=
  (denotesAt_withPoint scaled places).trimFraction.endsWithDigit

/-- Plain significant digits end with a digit. -/
theorem endsWithDigit_significantText (hx : x.isFinite = true) :
    EndsWithDigit (significantText x) := by
  obtain ⟨negative, m, e, hread⟩ := isFinite_iff.mp hx
  unfold significantText
  rw [hread]
  dsimp only
  split
  · exact endsWithDigit_trimFraction_withPoint _ _
  · exact (endsWithDigit_trimFraction_withPoint _ _).signed negative

/-- A power of ten ends with a digit, however it is written. -/
theorem endsWithDigit_exponentialText (print : PrintSettings) (num den : Nat) :
    EndsWithDigit (exponentialText print num den) := by
  have hpower (n : ℤ) : EndsWithDigit (integerText n) :=
    (endsWithDigit_of_isDigit Nat.toDigits_ne_nil (Decimal.isDigit_digits n.natAbs)).signed _
  unfold exponentialText
  refine EndsWithDigit.append ?_ _
  split
  · exact (hpower _).append ['e']
  · exact (hpower _).append ['E']
  · exact (hpower _).append _

/-- The text of a finite number in base ten ends with a digit. -/
theorem endsWithDigit_number {print : PrintSettings} (hbase : print.base = 10)
    (hx : x.isFinite = true) : EndsWithDigit (number print none x).toList := by
  obtain ⟨negative, m, e, hread⟩ := isFinite_iff.mp hx
  rw [number, String.toList_ofList, numberChars, hread]
  refine EndsWithDigit.typographic ?_ print
  rw [finiteText, if_neg fun h => h.1 hbase]
  split
  · obtain ⟨c, hlast, hc⟩ := endsWithDigit_significantText hx
    exact ⟨c, by rw [getLast?_grouped, hlast], hc⟩
  · exact (endsWithDigit_exponentialText print _ _).signed negative

/-- An exact answer ends with the mark of a repeating expansion. -/
def IsMarked (print : PrintSettings) (x : Float) : Prop :=
  (repetitionMark print.useUnicodeSigns).toList <:+ (exact print x).toList

/-- A finite number in base ten is marked just when its expansion counts as repeating: no number
text ends with dots by itself. -/
theorem isMarked_iff {print : PrintSettings} (hbase : print.base = 10)
    (hindicate : print.indicateInfiniteSeries = true) (hx : x.isFinite = true) :
    IsMarked print x ↔ repeats x = true := by
  unfold IsMarked exact
  rw [hindicate, hbase, Bool.true_and, beq_self_eq_true, Bool.true_and]
  dsimp only
  split
  · next hrepeats =>
    rw [String.toList_append]
    exact iff_of_true (List.suffix_append _ _) hrepeats
  · next hrepeats =>
    refine iff_of_false ?_ hrepeats
    rintro ⟨before, htext⟩
    obtain ⟨c, hlast, hc⟩ := endsWithDigit_number hbase hx
    rw [← htext, List.getLast?_append, repetitionMark] at hlast
    split at hlast
    · rw [← Option.some.inj hlast] at hc
      exact absurd hc (by decide)
    · rw [← Option.some.inj hlast] at hc
      exact absurd hc (by decide)

/-! ## The fraction and its mark -/

/-- A fraction in lowest terms takes no smaller denominator near an integer, unless it is large. -/
theorem not_isNearlyOver {p : ℤ} {q d : ℕ} (hcoprime : Int.gcd p q = 1) (hmax : q ≤ 1000)
    (hsize : p.natAbs * (q - 1) ≤ 999999000) (hd : 0 < d) (hless : d < q) :
    ¬ IsNearlyOver ((p : ℚ) / q) d (1000001 / 10 ^ 15) := by
  rintro ⟨n, hnear⟩
  have hq : (0 : ℚ) < q := by exact_mod_cast hd.trans hless
  have hmax' : (q : ℚ) ≤ 1000 := by exact_mod_cast hmax
  -- The distance is that of an integer which is not zero, over the denominator.
  have hdistance : 1 ≤ |(p : ℚ) / q * d - n| * q := by
    have hne : p * d - n * q ≠ 0 := by
      intro hzero
      have hdvd : (q : ℤ) ∣ p * d := ⟨n, by linarith⟩
      have hfactor := (Int.isCoprime_iff_gcd_eq_one.mpr hcoprime).symm.dvd_of_dvd_mul_left hdvd
      exact absurd (Nat.le_of_dvd hd (by exact_mod_cast hfactor)) (not_le.mpr hless)
    have hscaled : |(p : ℚ) / q * d - n| * q = |((p * d - n * q : ℤ) : ℚ)| := by
      rw [← abs_of_pos hq, ← abs_mul, abs_of_pos hq]
      push_cast
      congr 1
      field_simp
    rw [hscaled]
    exact_mod_cast Int.one_le_abs hne
  have hproduct : |(p : ℚ) / q * d| * q ≤ 999999000 := by
    have hle : p.natAbs * d ≤ 999999000 := le_trans (by gcongr; omega) hsize
    have habs : |(p : ℚ) / q * d| * q = ((p.natAbs * d : ℕ) : ℚ) := by
      rw [abs_mul, abs_div, Nat.abs_cast, Nat.abs_cast, Nat.cast_mul, Nat.cast_natAbs, Int.cast_abs]
      field_simp
    rw [habs]
    exact_mod_cast hle
  have hlarger : max 1 |(p : ℚ) / q * d| * q ≤ 999999000 := by
    rw [max_mul_of_nonneg _ _ hq.le, one_mul]
    exact max_le (by linarith) hproduct
  have hmultiplied := mul_le_mul_of_nonneg_right hnear hq.le
  rw [mul_assoc] at hmultiplied
  linarith

/-- A double that stands for a fraction in lowest terms is marked by a denominator which is at most
that of the fraction: the least one that takes the fraction near an integer, where a billionth of
the multiple is near enough and the last millionth of that share is left open. For a fraction that
is not too large it is the fraction's own denominator, so that the repeating expansions are marked
and the others are not. -/
theorem isMarked_of_isNearest {print : PrintSettings} {p : ℤ} {q : ℕ} (hbase : print.base = 10)
    (hindicate : print.indicateInfiniteSeries = true) (hq : 2 ≤ q) (hmax : q ≤ 1000)
    (hcoprime : Int.gcd p q = 1) (hlow : 1 / 10 ^ 9 ≤ |(p : ℚ) / q|)
    (hhigh : |(p : ℚ) / q| < 10 ^ 15) (hx : IsNearest ((p : ℚ) / q) x)
    (hfraction : ∀ n : ℤ, toRat x ≠ n) :
    (p.natAbs * (q - 1) ≤ 999999000 →
      (IsMarked print x ↔ ∃ r, r.Prime ∧ r ∣ q ∧ r ≠ 2 ∧ r ≠ 5)) ∧
    ∃ d, 2 ≤ d ∧ d ≤ q ∧ (IsMarked print x ↔ ∃ r, r.Prime ∧ r ∣ d ∧ r ≠ 2 ∧ r ≠ 5) ∧
      IsNearlyOver ((p : ℚ) / q) d (1000001 / 10 ^ 15) ∧
      ∀ c, 2 ≤ c → c < d → ¬ IsNearlyOver ((p : ℚ) / q) c (999999 / 10 ^ 15) := by
  have hp : p ≠ 0 := by
    rintro rfl
    norm_num at hlow
  have hstands := standsNear_of_isNearest (by omega) hmax hp hhigh hx
  obtain ⟨d, hfound, htwo, hle, haccepted, hrejected⟩ := exists_leastDenominator? hq hmax hstands
  -- The double is in the plain range, as `10 ^ 15` is an integer.
  have hlower : 1 / 10 ^ 9 ≤ |toRat x| := by
    have hsize := abs_sub_abs_le_abs_sub ((p : ℚ) / q) (toRat x)
    rw [abs_sub_comm] at hsize
    linarith [hstands.near, hstands.lower]
  have hupper : |toRat x| < 10 ^ 15 := by
    have hshort : IsShort (10 ^ 15) := by
      have h := isShort_intCast (n := (10 : ℤ) ^ (15 : ℕ)) (by norm_num)
      exact_mod_cast h
    refine lt_of_le_of_ne (hx.abs_toRat_le hshort ?_ hhigh.le) fun heq => ?_
    · calc (10 : ℚ) ^ 15 ≤ 2 ^ 50 := by norm_num
        _ < 2 ^ 1024 := pow_lt_pow_right₀ one_lt_two (by norm_num)
    · rcases (abs_eq (by positivity)).mp heq with habove | hbelow
      · exact hfraction (10 ^ 15) (by exact_mod_cast habove)
      · exact hfraction (-10 ^ 15) (by exact_mod_cast hbelow)
  have hmarked : IsMarked print x ↔ ∃ r, r.Prime ∧ r ∣ d ∧ r ≠ 2 ∧ r ≠ 5 := by
    rw [isMarked_iff hbase hindicate hx.isFinite,
      repeats_eq hx.isFinite hfraction hlower hupper hfound,
      isRepeatingDenominator_iff (by omega) (by omega)]
  have hnear := hstands.isNearlyOver_of_isFractionOver (by omega) (by omega) haccepted
  refine ⟨fun hsize => ?_, d, htwo, hle, hmarked, hnear, fun c hc hless hover => ?_⟩
  · have hown : d = q := by
      by_contra hother
      exact not_isNearlyOver hcoprime hmax hsize (by omega) (by omega) hnear
    rwa [hown] at hmarked
  · have haccepted' := hstands.isFractionOver_of_isNearlyOver (by omega) (by omega) hover
    rw [hrejected c hc hless] at haccepted'
    cases haccepted'

/-- A third is marked. -/
theorem isMarked_of_isNearest_third :
    IsNearest (((1 : ℤ) : ℚ) / (3 : ℕ)) (1.0 / 3.0) ∧ IsMarked {} (1.0 / 3.0) := by
  have hthree : (3.0 : Float).isFinite = true ∧ toRat 3.0 = 3 := by decide +kernel
  have hfinite : (1.0 / 3.0 : Float).isFinite = true := by decide +kernel
  have hden : (toRat (1.0 / 3.0)).den ≠ 1 := by decide +kernel
  have hrounded := isRounded_div isFinite_one hthree.1 (by rw [hthree.2]; norm_num)
  rw [toRat_one, hthree.2] at hrounded
  have hnearest : IsNearest (((1 : ℤ) : ℚ) / (3 : ℕ)) (1.0 / 3.0) := by
    rw [Int.cast_one, Nat.cast_ofNat]
    exact hrounded.isNearest hfinite
  have hfraction (n : ℤ) : toRat (1.0 / 3.0) ≠ n := fun h => hden (by rw [h, Rat.den_intCast])
  obtain ⟨hsmall, -⟩ := @isMarked_of_isNearest (1.0 / 3.0) {} 1 3 rfl rfl (by decide)
    (by decide) (by decide) (by norm_num) (by norm_num) hnearest hfraction
  exact ⟨hnearest, (hsmall (by decide)).mpr ⟨3, Nat.prime_three, dvd_rfl, by decide, by decide⟩⟩

/-- A third is taken for a multiple of a half when enough stands before the point. -/
example : exact {} 1000000000.3333333 = "1000000000.33" := by
  decide +kernel

end Reckoner.Answer
