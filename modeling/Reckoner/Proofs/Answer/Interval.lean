import Reckoner.Proofs.Answer.Accuracy
import Reckoner.Proofs.Binary64.Operations
import Reckoner.Rates

/-!
# Answers with an interval

An amount of a currency is known to half a hundredth. As an interval it is shown by its two ends:
the half-width is taken from the amount and added to it, which rounds to a double, and either end
is rounded again to three places. Up to `2 ^ 46` the half-width is more than both roundings can take
away. Beyond, two doubles are farther apart than the ends should be, so both ends are the amount
itself, and the interval is left without any width to make up for the second rounding.
-/

namespace Reckoner

namespace Binary64

variable {q d : ℚ}

/-- From `2 ^ 46` on, the doubles are multiples of a sixty-fourth. -/
theorem IsShort.exists_sixty_fourths (h : IsShort q) (hq : 2 ^ 46 ≤ |q|) :
    ∃ n : ℤ, q = n * (1 / 64) := by
  have hpower : (2 : ℚ) ^ (-6 : ℤ) = 1 / 64 := by norm_num
  rw [← hpower]
  exact h.exists_multiple_of_le (le_trans (by norm_num) hq)

/-- The next double after `2 ^ 46` is a sixty-fourth away. -/
theorem IsShort.add_sixty_fourth_le (h : IsShort q) (hlarge : 2 ^ 46 < |q|) :
    2 ^ 46 + 1 / 64 ≤ |q| := by
  by_contra hless
  obtain ⟨n, hn⟩ := h.abs.exists_sixty_fourths (by rw [abs_abs]; exact hlarge.le)
  have hpower : (2 : ℚ) ^ 46 = (2 ^ 52 : ℤ) * (1 / 64) := by norm_num
  have hclose : |(|q| - 2 ^ 46)| < 1 / 64 := abs_lt.mpr ⟨by linarith, by linarith⟩
  exact hlarge.ne' (eq_of_abs_sub_lt (by norm_num) hn hpower hclose)

/-- Past `2 ^ 46` a double is not changed when less than half of the distance to the next one is
added to it. -/
theorem rounded_add_eq_self (hq : IsShort q) (hlarge : 2 ^ 46 < |q|) (hd : |d| < 1 / 128) :
    rounded (q + d) = q := by
  obtain ⟨n, hn⟩ := hq.exists_sixty_fourths hlarge.le
  have hsum : 2 ^ 46 ≤ |q + d| := by
    have htriangle := abs_sub_abs_le_abs_add q d
    linarith [hq.add_sixty_fourth_le hlarge]
  obtain ⟨m, hm⟩ := (isShort_rounded (q + d)).exists_sixty_fourths
    ((isShort_two_pow 46).le_abs_rounded hsum)
  -- The number itself is that near, so the rounded one is not farther away.
  have hnear := abs_rounded_sub_le_of_isShort (q := q + d) hq
  rw [sub_add_cancel_left, abs_neg] at hnear
  have htriangle := abs_sub_le (rounded (q + d)) (q + d) q
  rw [add_sub_cancel_left] at htriangle
  exact eq_of_abs_sub_lt (by norm_num) hm hn (by linarith)

/-- An amount stays finite when less than that is added to it. -/
theorem IsRounded.of_add {x y : Float} (h : IsRounded (toRat x + d) y) (hd : |d| < 1 / 128) :
    y.isFinite = true ∧ toRat y = rounded (toRat x + d) := by
  rcases le_or_gt |toRat x| (2 ^ 46) with hsmall | hlarge
  · have hsum : |toRat x + d| ≤ 2 ^ 47 := by
      have htriangle := abs_add_le (toRat x) d
      linarith
    obtain ⟨hfinite, hvalue, -⟩ := h.of_abs_le_two_pow (by norm_num) hsum
    exact ⟨hfinite, hvalue⟩
  · refine h.number ?_
    rw [rounded_add_eq_self (isShort_toRat x) hlarge hd]
    exact abs_toRat_lt x

end Binary64

namespace Answer

open Binary64 Decimal

variable {q h : ℚ} {x : Float} {print : PrintSettings} {places : Nat}

/-! ## Numbers with a fixed count of places -/

/-- A number rounded to a count of places. -/
def atPlaces (places : Nat) (q : ℚ) : ℚ :=
  nearestInteger (q * 10 ^ places) / 10 ^ places

/-- Larger numbers are not smaller after rounding. -/
theorem atPlaces_mono (places : Nat) : Monotone (atPlaces places) := by
  intro q q' hle
  have hscaled : q * 10 ^ places ≤ q' * 10 ^ places := by gcongr
  have hmono := nearestInteger_mono hscaled
  unfold atPlaces
  gcongr

@[simp] theorem atPlaces_neg (places : Nat) (q : ℚ) :
    atPlaces places (-q) = -atPlaces places q := by
  rw [atPlaces, atPlaces, neg_mul, nearestInteger_neg, Int.cast_neg, neg_div]

/-- Rounding changes a number by at most half a unit of the last place. -/
theorem abs_atPlaces_sub_le (places : Nat) (q : ℚ) :
    |atPlaces places q - q| ≤ 1 / 2 * (1 / 10 ^ places) := by
  obtain ⟨hnear, -⟩ := isNearestInteger_nearestInteger (q * 10 ^ places)
  have hunit : q / (1 / 10 ^ places) = q * 10 ^ places := by rw [div_div_eq_mul_div, div_one]
  rw [← hunit] at hnear
  have hdistance := abs_mul_sub_le_of_le_half (by positivity) hnear
  rwa [hunit, mul_one_div] at hdistance

/-- Just the numbers with no more than so many places are kept. -/
theorem atPlaces_eq_self_iff : atPlaces places q = q ↔ ∃ n : ℤ, q * 10 ^ places = n := by
  have hpower : (10 : ℚ) ^ places ≠ 0 := by positivity
  constructor
  · intro hkept
    refine ⟨nearestInteger (q * 10 ^ places), ?_⟩
    rwa [atPlaces, div_eq_iff hpower, eq_comm] at hkept
  · rintro ⟨n, hn⟩
    rw [atPlaces, hn, nearestInteger_intCast, ← hn, mul_div_cancel_right₀ _ hpower]

/-- In base ten, a number with a count of places denotes the number rounded to so many. -/
theorem denoted_number_places (hbase : print.base = 10) (hx : x.isFinite = true) (places : Nat) :
    denoted (number print (some places) x).toList = some (atPlaces places (toRat x)) := by
  obtain ⟨negative, m, e, hread⟩ := isFinite_iff.mp hx
  have htext : (number print (some places) x).toList =
      typographic print (grouped print (fixed places x)) := by
    rw [number, String.toList_ofList, numberChars, hread]
    dsimp only
    rw [finiteText, if_neg fun hother => hother.1 hbase]
  have hrounded := roundHalfEven_eq_nearestInteger (numerator m e * 10 ^ places) (denominator_pos e)
  have hscaled : ((numerator m e * 10 ^ places : ℕ) : ℚ) / denominator e =
      (numerator m e : ℚ) / denominator e * 10 ^ places := by
    push_cast
    ring
  rw [hscaled] at hrounded
  rw [htext, denoted_typographic, denoted_grouped, fixed, hread]
  dsimp only [fixedMagnitude, Nat.pow_eq]
  rw [(denotesAt_withPoint _ places).denoted_signed_bare negative, toRat_of_ofFloat hread,
    ← Int.cast_natCast (R := ℚ), hrounded]
  cases negative with
  | true => rw [if_pos rfl, neg_one_mul, neg_one_mul, atPlaces_neg, atPlaces]
  | false => rw [if_neg (by decide), one_mul, one_mul, atPlaces]

/-! ## The ends of an interval -/

/-- Half a unit of the precision that amounts of a currency have. -/
def currencyHalfWidth : ℚ :=
  toRat (halfWidth currencyPrecision)

/-- It is half a hundredth, rounded up to a double. -/
theorem currencyHalfWidth_bounds :
    1 / 200 ≤ currencyHalfWidth ∧ currencyHalfWidth < 201 / 40000 := by
  have hvalue : currencyHalfWidth = 5764607523034235 / 1152921504606846976 := by decide +kernel
  rw [hvalue]
  constructor <;> norm_num

theorem abs_currencyHalfWidth_lt : |currencyHalfWidth| < 1 / 128 := by
  obtain ⟨hlow, hhigh⟩ := currencyHalfWidth_bounds
  exact abs_lt.mpr ⟨by linarith, by linarith⟩

theorem isFinite_halfWidth : (halfWidth currencyPrecision).isFinite = true := by
  decide +kernel

/-- The upper end that is shown of an amount. -/
def upperEnd (q : ℚ) : ℚ :=
  atPlaces 3 (rounded (q + currencyHalfWidth))

/-- The lower end that is shown of an amount. -/
def lowerEnd (q : ℚ) : ℚ :=
  atPlaces 3 (rounded (q - currencyHalfWidth))

/-- The lower end of an amount is the upper end of the opposite one. -/
theorem lowerEnd_eq (q : ℚ) : lowerEnd q = -upperEnd (-q) := by
  rw [lowerEnd, upperEnd, ← atPlaces_neg, ← rounded_neg, neg_add, neg_neg, sub_eq_add_neg]

/-- Up to `2 ^ 46` the upper end is not below the amount. -/
theorem le_upperEnd_of_le (hq : |q| ≤ 2 ^ 46) : q ≤ upperEnd q := by
  obtain ⟨hlow, hhigh⟩ := currencyHalfWidth_bounds
  obtain ⟨hmin, hmax⟩ := abs_le.mp hq
  unfold upperEnd
  rcases le_or_gt (2 ^ 46) (q + currencyHalfWidth) with hlarge | hsmall
  · -- The power of two is a double with no places at all.
    have hkept : atPlaces 3 (2 ^ 46) = 2 ^ 46 :=
      atPlaces_eq_self_iff.mpr ⟨2 ^ 46 * 10 ^ 3, by norm_num⟩
    calc q ≤ 2 ^ 46 := hmax
      _ = atPlaces 3 (2 ^ 46) := hkept.symm
      _ ≤ atPlaces 3 (rounded (q + currencyHalfWidth)) :=
        atPlaces_mono 3 ((isShort_two_pow 46).le_rounded hlarge)
  · -- The two errors together are less than the half-width.
    have hsum : |q + currencyHalfWidth| < 2 ^ 53 * 2 ^ (-7 : ℤ) := by
      refine abs_lt.mpr ⟨?_, ?_⟩ <;> norm_num <;> linarith
    obtain ⟨hrounded, -⟩ := abs_le.mp (abs_rounded_sub_le_of_lt (by norm_num) hsum)
    obtain ⟨hplaces, -⟩ := abs_le.mp (abs_atPlaces_sub_le 3 (rounded (q + currencyHalfWidth)))
    norm_num at hrounded hplaces
    linarith

/-- Past `2 ^ 46` both ends are the amount, with three places. -/
theorem ends_eq_of_lt (hq : IsShort q) (hlarge : 2 ^ 46 < |q|) :
    lowerEnd q = atPlaces 3 q ∧ upperEnd q = atPlaces 3 q := by
  have hupper {r : ℚ} (hr : IsShort r) (hless : 2 ^ 46 < |r|) : upperEnd r = atPlaces 3 r := by
    rw [upperEnd, rounded_add_eq_self hr hless abs_currencyHalfWidth_lt]
  refine ⟨?_, hupper hq hlarge⟩
  rw [lowerEnd_eq, hupper hq.neg (by rwa [abs_neg]), atPlaces_neg, neg_neg]

/-- A double that large has three places just where it has three bits behind the point. -/
theorem atPlaces_eq_self_iff_of_lt (hq : IsShort q) (hlarge : 2 ^ 46 < |q|) :
    atPlaces 3 q = q ↔ ∃ n : ℤ, q * 8 = n := by
  obtain ⟨k, hk⟩ := hq.exists_sixty_fourths hlarge.le
  rw [atPlaces_eq_self_iff, hk]
  constructor
  · rintro ⟨n, hn⟩
    have hproduct : k * 125 = n * 8 := by
      have : (k : ℚ) * 125 = n * 8 := by
        rw [← hn]
        norm_num
        ring
      exact_mod_cast this
    refine ⟨k / 8, ?_⟩
    have hdivides : k / 8 * 8 = k := by omega
    have hcast : ((k / 8 : ℤ) : ℚ) * 8 = k := by exact_mod_cast hdivides
    rw [← hcast]
    norm_num
    ring
  · rintro ⟨n, hn⟩
    refine ⟨n * 125, ?_⟩
    push_cast
    rw [← hn]
    ring

/-- The ends are on both sides of an amount up to `2 ^ 46`, and past it just where the amount has at
most three bits behind the point. -/
theorem ends_enclose_iff (hq : IsShort q) :
    (lowerEnd q ≤ q ∧ q ≤ upperEnd q) ↔ |q| ≤ 2 ^ 46 ∨ ∃ n : ℤ, q * 8 = n := by
  rcases le_or_gt |q| (2 ^ 46) with hsmall | hlarge
  · have hopposite := le_upperEnd_of_le (by rwa [abs_neg] : |-q| ≤ 2 ^ 46)
    refine iff_of_true ⟨?_, le_upperEnd_of_le hsmall⟩ (.inl hsmall)
    rw [lowerEnd_eq]
    exact neg_le.mpr hopposite
  · obtain ⟨hlow, hhigh⟩ := ends_eq_of_lt hq hlarge
    rw [hlow, hhigh, or_iff_right hlarge.not_ge, ← atPlaces_eq_self_iff_of_lt hq hlarge]
    exact ⟨fun ⟨hle, hge⟩ => hle.antisymm hge, fun heq => ⟨heq.le, heq.ge⟩⟩

/-- An amount of a currency is shown as an interval by two ends. They are on both sides of the
amount if it is at most `2 ^ 46`, or has at most three bits behind the point; and only then. -/
theorem interval_encloses_iff (hbase : print.base = 10)
    (hdisplay : print.intervalDisplay = .interval) (hx : x.isFinite = true) :
    ∃ low high lo hi, approximate print (some currencyPrecision) x =
        "interval(" ++ low ++ ", " ++ high ++ ")" ∧
      denoted low.toList = some lo ∧ denoted high.toList = some hi ∧
      (lo ≤ toRat x ∧ toRat x ≤ hi ↔ |toRat x| ≤ 2 ^ 46 ∨ ∃ n : ℤ, toRat x * 8 = n) := by
  have hsub : IsRounded (toRat x + -currencyHalfWidth) (x - halfWidth currencyPrecision) := by
    rw [← sub_eq_add_neg]
    exact isRounded_sub hx isFinite_halfWidth
  obtain ⟨hless, hlow⟩ := hsub.of_add ((abs_neg _).trans_lt abs_currencyHalfWidth_lt)
  obtain ⟨hmore, hhigh⟩ := (isRounded_add hx isFinite_halfWidth).of_add abs_currencyHalfWidth_lt
  refine ⟨number print (some 3) (x - halfWidth currencyPrecision),
    number print (some 3) (x + halfWidth currencyPrecision), lowerEnd (toRat x),
    upperEnd (toRat x), ?_, ?_, ?_, ends_enclose_iff (isShort_toRat x)⟩
  · unfold approximate
    rw [hdisplay]
    rfl
  · rw [denoted_number_places hbase hless, hlow, ← sub_eq_add_neg]
    rfl
  · rw [denoted_number_places hbase hmore, hhigh]
    rfl

/-- Past `2 ^ 46` an amount with four bits behind the point or more is outside of its interval. -/
theorem interval_encloses_iff_sixty_fourth :
    let x : Float := 70368744177664.015625
    let print : PrintSettings := { intervalDisplay := .interval }
    approximate print (some currencyPrecision) x =
        "interval(70368744177664.016, 70368744177664.016)" ∧
      ∃ low high lo hi, approximate print (some currencyPrecision) x =
          "interval(" ++ low ++ ", " ++ high ++ ")" ∧
        denoted low.toList = some lo ∧ denoted high.toList = some hi ∧
        ¬ (lo ≤ toRat x ∧ toRat x ≤ hi) := by
  intro x print
  have hx : x.isFinite = true := by decide +kernel
  refine ⟨by decide +kernel, ?_⟩
  obtain ⟨low, high, lo, hi, htext, hlow, hhigh, hiff⟩ :=
    @interval_encloses_iff x print rfl rfl hx
  refine ⟨low, high, lo, hi, htext, hlow, hhigh, ?_⟩
  have hvalue : toRat x = 2 ^ 46 + 1 / 64 := by decide +kernel
  rw [hiff, hvalue, not_or, not_exists]
  refine ⟨by norm_num, fun n hn => ?_⟩
  have htwice : n * 8 = 2 ^ 52 + 1 := by
    have : (n : ℚ) * 8 = 2 ^ 52 + 1 := by
      rw [← hn]
      norm_num
    exact_mod_cast this
  omega

/-- As a half-width behind the amount, the uncertainty always covers the rounding of the amount. -/
theorem plusMinus_encloses (hbase : print.base = 10)
    (hdisplay : print.intervalDisplay = .plusMinus) (hx : x.isFinite = true) :
    ∃ middle width value half, approximate print (some currencyPrecision) x =
        middle ++ (if print.useUnicodeSigns then " ± " else " +/- ") ++ width ∧
      denoted middle.toList = some value ∧ denoted width.toList = some half ∧
      |toRat x - value| ≤ half := by
  have hhalf : atPlaces 3 currencyHalfWidth = 1 / 200 := by decide +kernel
  refine ⟨number print (some 2) x, number print (some 3) (halfWidth currencyPrecision),
    atPlaces 2 (toRat x), atPlaces 3 currencyHalfWidth, ?_, denoted_number_places hbase hx 2,
    denoted_number_places hbase isFinite_halfWidth 3, ?_⟩
  · unfold approximate
    rw [hdisplay]
    rfl
  · rw [hhalf, abs_sub_comm]
    exact (abs_atPlaces_sub_le 2 (toRat x)).trans_eq (by norm_num)

end Answer

end Reckoner
