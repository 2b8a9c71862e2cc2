import Reckoner.Proofs.Binary64.Unpacked

/-!
# Results are rounded once

An operation hands an exact result, as a mantissa and an exponent, to one rounding function. The
function shifts the mantissa to the spacing of the result and remembers of the bits that it drops
no more than two; it rounds, and shifts again if the mantissa has become too long. This file proves
that what comes out is the rounded number, and that a double which is packed of it is that number,
or infinite where the number is too large.
-/

namespace Reckoner.Binary64

open Float.Model Float.Model.UnpackedFloat

/-! ## What two bits remember -/

/-- What a round bit and a sticky bit say of the part of a number below its last place. -/
inductive Residue : Bool → Bool → ℚ → Prop where
  | none : Residue false false 0
  | belowHalf {part : ℚ} : 0 < part → part < 1 / 2 → Residue false true part
  | half : Residue true false (1 / 2)
  | aboveHalf {part : ℚ} : 1 / 2 < part → part < 1 → Residue true true part

/-- A mantissa with its two bits stands for a number. -/
def StandsFor (em : ExtendedMantissa) (q : ℚ) : Prop :=
  Residue em.roundBit em.stickyBit (q - em.mantissa)

variable {em : ExtendedMantissa} {q : ℚ}

/-- The part below the last place is less than a unit of it. -/
theorem Residue.bounds {round sticky : Bool} {part : ℚ} (h : Residue round sticky part) :
    0 ≤ part ∧ part < 1 := by
  cases h with
  | none => exact ⟨le_rfl, one_pos⟩
  | belowHalf hpos hless => exact ⟨hpos.le, by linarith⟩
  | half => norm_num
  | aboveHalf hmore hless => exact ⟨by linarith, hless⟩

/-- An integer stands for itself. -/
theorem standsFor_exact (m : Nat) : StandsFor ⟨m, false, false⟩ m := by
  unfold StandsFor
  rw [sub_self]
  exact .none

/-- The bit that is shifted out becomes the round bit, and what the two bits said before goes into
the sticky bit. -/
theorem StandsFor.shiftRightOne (h : StandsFor em q) : StandsFor em.shiftRightOne (q / 2) := by
  obtain ⟨m, round, sticky⟩ := em
  have hsplit : ((m % 2 : ℕ) : ℚ) + 2 * ((m / 2 : ℕ) : ℚ) = m := by
    exact_mod_cast Nat.mod_add_div m 2
  unfold StandsFor ExtendedMantissa.shiftRightOne at *
  dsimp only at *
  generalize hpart : q - m = part at h
  have hshifted : q / 2 - ((m / 2 : ℕ) : ℚ) = (((m % 2 : ℕ) : ℚ) + part) / 2 := by
    rw [← hpart, ← hsplit]
    ring
  rw [hshifted]
  rcases Nat.mod_two_eq_zero_or_one m with heven | hodd
  · rw [heven, Nat.cast_zero, zero_add]
    cases h with
    | none =>
      rw [zero_div]
      exact .none
    | belowHalf hpos hless => exact .belowHalf (by linarith) (by linarith)
    | half => exact .belowHalf (by norm_num) (by norm_num)
    | aboveHalf hmore hless => exact .belowHalf (by linarith) (by linarith)
  · rw [hodd, Nat.cast_one]
    cases h with
    | none =>
      rw [add_zero]
      exact .half
    | belowHalf hpos hless => exact .aboveHalf (by linarith) (by linarith)
    | half => exact .aboveHalf (by norm_num) (by norm_num)
    | aboveHalf hmore hless => exact .aboveHalf (by linarith) (by linarith)

/-- A shift by some places divides by that power of two. -/
theorem StandsFor.shiftRight (h : StandsFor em q) (k : Nat) : StandsFor (em >>> k) (q / 2 ^ k) := by
  show StandsFor (Nat.repeat ExtendedMantissa.shiftRightOne k em) _
  induction k with
  | zero => rwa [pow_zero, div_one]
  | succ k ih =>
    rw [Nat.repeat, pow_succ, ← div_div]
    exact ih.shiftRightOne

/-- The two bits are enough to find the nearest integer. -/
theorem StandsFor.roundedMantissa (h : StandsFor em q) :
    (em.roundedMantissa : ℤ) = nearestInteger q := by
  obtain ⟨m, round, sticky⟩ := em
  unfold StandsFor at h
  dsimp only at h
  generalize hpart : q - m = part at h
  obtain rfl : q = m + part := by linarith
  symm
  apply IsNearestInteger.eq
  cases h with
  | none =>
    show IsNearestInteger _ (m : ℤ)
    constructor
    · simp
    · simp
  | belowHalf hpos hless =>
    show IsNearestInteger _ (m : ℤ)
    have hdistance : (m : ℚ) + part - ((m : ℤ) : ℚ) = part := by
      push_cast
      ring
    constructor
    · rw [hdistance, abs_of_pos hpos]
      exact hless.le
    · rw [hdistance, abs_of_pos hpos]
      exact fun htie => absurd htie hless.ne
  | half =>
    show IsNearestInteger _ ((m + m % 2 : ℕ) : ℤ)
    have hdistance : |(m : ℚ) + 1 / 2 - (((m + m % 2 : ℕ) : ℤ) : ℚ)| = 1 / 2 := by
      rcases Nat.mod_two_eq_zero_or_one m with heven | hodd
      · rw [heven, abs_of_pos] <;> push_cast <;> linarith
      · rw [hodd, abs_of_neg] <;> push_cast <;> linarith
    refine ⟨hdistance.le, fun _ => ?_⟩
    rw [Int.even_coe_nat, Nat.even_iff]
    omega
  | aboveHalf hmore hless =>
    show IsNearestInteger _ ((m + 1 : ℕ) : ℤ)
    have hdistance : (m : ℚ) + part - (((m + 1 : ℕ) : ℤ) : ℚ) = part - 1 := by
      push_cast
      ring
    have hneg : part - 1 < 0 := by linarith
    constructor
    · rw [hdistance, abs_of_neg hneg]
      linarith
    · rw [hdistance, abs_of_neg hneg]
      intro htie
      linarith

/-! ## The spacing of a result -/

/-- A power of two below a number bounds its spacing. -/
theorem le_spacing {e : ℤ} (h : e ≤ -1074 ∨ 2 ^ 52 * 2 ^ e ≤ |q|) : e ≤ spacing q := by
  rcases h with hsmall | hlarge
  · exact hsmall.trans (neg_1074_le_spacing q)
  · have hpower : (2 : ℚ) ^ 52 * 2 ^ e = 2 ^ (((52 : ℕ) : ℤ) + e) := by
      rw [zpow_add₀ two_ne_zero, zpow_natCast]
    have hpos : 0 < |q| := lt_of_lt_of_le (by positivity) hlarge
    rw [hpower] at hlarge
    have hlog := (Int.zpow_le_iff_le_log Nat.one_lt_two hpos).mp hlarge
    unfold spacing
    omega

/-- The target of a shift is the greater one of the least exponent and the place of the 53rd bit. -/
theorem targetExponent_eq (t : ℤ) : Format.targetExponent .binary64 t = max (t - 53) (-1074) := rfl

/-- The exponent that a number is shifted to is its spacing. -/
theorem targetExponent_eq_spacing {m : Nat} {e : ℤ} (hm : 0 < m) (hlow : magnitude m e ≤ q)
    (hhigh : q < magnitude (m + 1) e) :
    Format.targetExponent .binary64 (totalExponent m e) = spacing q := by
  have hq : 0 < q := (magnitude_pos hm e).trans_le hlow
  have hpos : (0 : ℚ) < 2 ^ e := by positivity
  obtain ⟨hlog, hnext⟩ := two_zpow_log2 hm
  have hlower : (2 : ℚ) ^ ((m.log2 : ℤ) + e) ≤ |q| := by
    rw [abs_of_pos hq, zpow_add₀ two_ne_zero]
    exact (mul_le_mul_of_nonneg_right hlog hpos.le).trans hlow
  have hupper : |q| < (2 : ℚ) ^ ((m.log2 : ℤ) + 1 + e) := by
    have hsucc : ((m + 1 : ℕ) : ℚ) ≤ 2 ^ ((m.log2 : ℤ) + 1) := by
      have : m + 1 ≤ 2 ^ (m.log2 + 1) := Nat.lt_log2_self
      exact_mod_cast this
    rw [abs_of_pos hq, zpow_add₀ two_ne_zero]
    exact hhigh.trans_le (mul_le_mul_of_nonneg_right hsucc hpos.le)
  have hge := (Int.zpow_le_iff_le_log Nat.one_lt_two (abs_pos.mpr hq.ne')).mp hlower
  have hle := (Int.lt_zpow_iff_log_lt Nat.one_lt_two (abs_pos.mpr hq.ne')).mp hupper
  rw [targetExponent_eq, totalExponent, spacing]
  omega

/-! ## Rounding a result -/

/-- A finite number whose mantissa and exponent are canonical. -/
structure IsNumber (u : UnpackedFloat) : Prop where
  isFinite : u.isFinite = true
  canonical : ∀ s m e hm, u = .finite s m e hm → IsCanonical m e

/-- A result, not packed yet, is a number rounded. -/
structure Rounds (q : ℚ) (u : UnpackedFloat) : Prop extends IsNumber u where
  amount_eq : amount u = rounded q

theorem isNumber_zero (s : Sign) : IsNumber (.zero s) :=
  ⟨rfl, nofun⟩

theorem isNumber_finite {s : Sign} {m : Nat} {e : ℤ} {hm : 0 < m} (h : IsCanonical m e) :
    IsNumber (.finite s m e hm) := by
  refine ⟨rfl, fun s' m' e' hm' heq => ?_⟩
  obtain ⟨-, rfl, rfl⟩ := UnpackedFloat.finite.inj heq
  exact h

/-- The sign is kept when a magnitude is rounded. -/
theorem rounded_signFactor (s : Sign) (q : ℚ) :
    rounded (signFactor s * q) = signFactor s * rounded q := by
  cases s <;> simp [signFactor]

/-- A mantissa and an accuracy stand for the exact result, and the exponent is not too large: then
the result is rounded. -/
theorem rounds_roundWithAccuracy (s : Sign) {m : Nat} {e : ℤ} {accuracy : Accuracy} (hq : 0 < q)
    (h : StandsFor (.ofMantissaAndAccuracy m accuracy) (q / 2 ^ e)) (he : e ≤ spacing q) :
    Rounds (signFactor s * q) (roundWithAccuracy .binary64 s m e accuracy) := by
  have hpos : (0 : ℚ) < 2 ^ e := by positivity
  have hmantissa : (ExtendedMantissa.ofMantissaAndAccuracy m accuracy).mantissa = m := by
    cases accuracy with
    | exact => rfl
    | inexact ordering => cases ordering <;> rfl
  have htarget : Format.targetExponent .binary64 (totalExponent m e) = spacing q := by
    obtain ⟨hlow, hhigh⟩ := h.bounds
    rw [hmantissa] at hlow hhigh
    rw [sub_nonneg, le_div_iff₀ hpos] at hlow
    rw [sub_lt_iff_lt_add, div_lt_iff₀ hpos] at hhigh
    rcases Nat.eq_zero_or_pos m with rfl | hm
    · -- Nothing is left of the number: it lies below the least place.
      have hlt : |q| < 2 ^ 0 * 2 ^ e := by
        rw [abs_of_pos hq]
        simpa using hhigh
      have hlog := (Int.lt_zpow_iff_log_lt Nat.one_lt_two (abs_pos.mpr hq.ne')).mp
        (by simpa using hlt : |q| < (2 : ℚ) ^ e)
      have hzero : Nat.log2 0 = 0 := rfl
      rw [targetExponent_eq, totalExponent, hzero]
      unfold spacing at he ⊢
      omega
    · refine targetExponent_eq_spacing hm hlow (hhigh.trans_eq ?_)
      rw [magnitude, Nat.cast_add, Nat.cast_one, add_comm]
  -- The first shift ends at the spacing, and the mantissa there is the rounded one.
  have hshift : (2 : ℚ) ^ spacing q = 2 ^ e * 2 ^ (spacing q - e).toNat := by
    rw [← zpow_natCast, ← zpow_add₀ two_ne_zero]
    congr 1
    omega
  have hrounded := (h.shiftRight (spacing q - e).toNat).roundedMantissa
  rw [div_div, ← hshift] at hrounded
  have hfirst : shiftToTargetExponent .binary64 m e accuracy =
      (ExtendedMantissa.ofMantissaAndAccuracy m accuracy >>> (spacing q - e).toNat, spacing q) := by
    rw [shiftToTargetExponent, htarget, shiftToExponent]
    congr 1
    omega
  rw [roundWithAccuracy, hfirst]
  dsimp only
  generalize ExtendedMantissa.roundedMantissa _ = r at hrounded
  have hvalue : rounded q = magnitude r (spacing q) := by
    rw [rounded, magnitude, ← hrounded, Int.cast_natCast]
  have hmin := neg_1074_le_spacing q
  have hmax : r ≤ 2 ^ 53 := by
    have hle := rounded_le_spacing q
    rw [hvalue] at hle
    exact_mod_cast le_of_mul_le_mul_right hle (by positivity)
  have hleading : spacing q = -1074 ∨ 2 ^ 52 ≤ r := by
    rcases hmin.lt_or_eq with hnormal | hleast
    · have hle := spacing_le_rounded hq hnormal
      rw [hvalue] at hle
      exact .inr (by exact_mod_cast le_of_mul_le_mul_right hle (by positivity))
    · exact .inl hleast.symm
  -- The second shift only takes back a carry.
  rcases Nat.eq_zero_or_pos r with rfl | hr
  · have hzero : (shiftToTargetExponent .binary64 0 (spacing q) .exact).1.mantissa = 0 := by
      have hnil := shiftRight_shifted 0 (Format.targetExponent .binary64
        (totalExponent 0 (spacing q)) - spacing q).toNat
      rw [mul_zero] at hnil
      rw [shiftToTargetExponent, shiftToExponent]
      exact congrArg ExtendedMantissa.mantissa hnil
    rw [dif_pos hzero]
    refine ⟨isNumber_zero s, ?_⟩
    rw [rounded_signFactor, hvalue, magnitude, Nat.cast_zero, zero_mul, mul_zero, amount_zero]
  · have hfound {m' : Nat} {e' : ℤ} (hm' : 0 < m') (hcanonical : IsCanonical m' e')
        (hsame : magnitude m' e' = magnitude r (spacing q)) :
        Rounds (signFactor s * q) (.finite s m' e' hm') := by
      refine ⟨isNumber_finite hcanonical, ?_⟩
      rw [rounded_signFactor, hvalue, amount, hsame]
    rcases hmax.lt_or_eq with hless | hcarry
    · have hcanonical : IsCanonical r (spacing q) := ⟨hless, hmin, hleading⟩
      have hsecond := shiftToTargetExponent_shifted (k := 0) hr hcanonical
      rw [pow_zero, one_mul, Nat.cast_zero, sub_zero] at hsecond
      rw [hsecond]
      dsimp only
      rw [dif_neg hr.ne']
      exact hfound hr hcanonical rfl
    · have hcanonical : IsCanonical (2 ^ 52) (spacing q + 1) := ⟨by decide, by omega, by omega⟩
      have hsecond := shiftToTargetExponent_shifted (k := 1) (by positivity) hcanonical
      have hpower : 2 ^ 1 * 2 ^ 52 = r := by omega
      rw [hpower, Nat.cast_one, add_sub_cancel_right] at hsecond
      rw [hsecond]
      dsimp only
      rw [dif_neg (by positivity)]
      refine hfound (by positivity) hcanonical ?_
      rw [magnitude, magnitude, ← hpower, zpow_add_one₀ two_ne_zero]
      push_cast
      ring

/-- A shift to the left is taken back by the exponent. -/
theorem magnitude_shiftLeft (m k : Nat) (e : ℤ) : magnitude (m <<< k) (e - k) = magnitude m e := by
  rw [magnitude, magnitude, Nat.shiftLeft_eq, zpow_sub₀ two_ne_zero, zpow_natCast]
  push_cast
  field_simp

/-- A mantissa and an exponent stand for their own number. -/
theorem standsFor_magnitude (m : Nat) (e : ℤ) :
    StandsFor (.ofMantissaAndAccuracy m .exact) (magnitude m e / 2 ^ e) := by
  rw [magnitude, mul_div_cancel_right₀ _ (by positivity)]
  exact standsFor_exact m

/-- A mantissa and an exponent are rounded as their number. -/
theorem rounds_round (s : Sign) {m : Nat} (hm : 0 < m) (e : ℤ) :
    Rounds (signFactor s * magnitude m e) (UnpackedFloat.round .binary64 s m e) := by
  have hpos := magnitude_pos hm e
  have hnext : magnitude m e < magnitude (m + 1) e :=
    mul_lt_mul_of_pos_right (by exact_mod_cast Nat.lt_succ_self m) (by positivity)
  have htarget := targetExponent_eq_spacing hm le_rfl hnext
  unfold UnpackedFloat.round decreaseExponent
  dsimp only
  rw [htarget]
  generalize hk : (e - spacing (magnitude m e)).toNat = k
  rw [← magnitude_shiftLeft m k] at hpos hk ⊢
  exact rounds_roundWithAccuracy s hpos (standsFor_magnitude _ _) (by omega)

/-- A signed mantissa and an exponent are rounded as their number. -/
theorem rounds_normalize (n e : ℤ) (zeroSign : Sign) :
    Rounds (n * 2 ^ e) (UnpackedFloat.normalize .binary64 n e zeroSign) := by
  unfold UnpackedFloat.normalize
  rcases lt_trichotomy n 0 with hneg | rfl | hpos
  · rw [compare_lt_iff_lt.mpr hneg]
    have h := rounds_round .negative (show 0 < (-n).toNat by omega) e
    have hcast : (((-n).toNat : ℕ) : ℚ) = -n := by
      exact_mod_cast Int.toNat_of_nonneg (show 0 ≤ -n by omega)
    rwa [magnitude, hcast, signFactor, neg_mul, neg_mul, one_mul, neg_neg] at h
  · show Rounds _ (.zero zeroSign)
    refine ⟨isNumber_zero zeroSign, ?_⟩
    rw [Int.cast_zero, zero_mul, rounded_zero, amount_zero]
  · rw [compare_gt_iff_gt.mpr hpos]
    have h := rounds_round .positive (show 0 < n.toNat by omega) e
    have hcast : ((n.toNat : ℕ) : ℚ) = n := by
      exact_mod_cast Int.toNat_of_nonneg hpos.le
    rwa [magnitude, hcast, signFactor, one_mul] at h

/-! ## Packing a result -/

/-- A double is the one that a number is rounded to: the rounded number, or infinite where that has
no double. -/
structure IsRounded (q : ℚ) (x : Float) : Prop where
  number : |rounded q| < 2 ^ 1024 → x.isFinite = true ∧ toRat x = rounded q
  infinite : 2 ^ 1024 ≤ |rounded q| → ofFloat x = .infinite (decide (rounded q < 0))

/-- The magnitude of a number with a sign. -/
theorem abs_signFactor_mul (s : Sign) {q : ℚ} (hq : 0 ≤ q) : |signFactor s * q| = q := by
  cases s <;> simp [signFactor, abs_of_nonneg hq]

/-- The number of a canonical mantissa is in the range of the doubles up to their greatest
exponent. -/
theorem IsCanonical.magnitude_lt_iff {m : Nat} {e : ℤ} (h : IsCanonical m e) :
    magnitude m e < 2 ^ 1024 ↔ e ≤ 971 := by
  have hrange (k : ℕ) : (2 : ℚ) ^ 1024 = 2 ^ k * 2 ^ (1024 - k : ℤ) := by
    rw [← zpow_natCast 2 k, ← zpow_add₀ two_ne_zero, add_sub_cancel]
    rfl
  constructor
  · intro hless
    by_contra hlarge
    rw [not_le] at hlarge
    have hlead : 2 ^ 52 ≤ m := h.leading.resolve_left (by omega)
    have hmin : (2 : ℚ) ^ 52 ≤ m := by exact_mod_cast hlead
    have hpower : (2 : ℚ) ^ (1024 - (52 : ℕ) : ℤ) ≤ 2 ^ e := zpow_le_zpow_right₀ one_le_two hlarge
    refine absurd hless (not_lt.mpr ?_)
    rw [hrange 52, magnitude]
    exact mul_le_mul hmin hpower (by positivity) (by positivity)
  · intro hsmall
    have hmax : (m : ℚ) < 2 ^ 53 := by exact_mod_cast h.mantissa_lt
    have hpower : (2 : ℚ) ^ e ≤ 2 ^ (1024 - (53 : ℕ) : ℤ) := zpow_le_zpow_right₀ one_le_two hsmall
    rw [hrange 53, magnitude]
    exact mul_lt_mul hmax hpower (by positivity) (by positivity)

/-- What is packed of a rounded result is the double that the number is rounded to. -/
theorem Rounds.pack {u : UnpackedFloat} (h : Rounds q u) :
    IsRounded q (Float.ofModel (Float.Model.pack u)) := by
  obtain ⟨⟨hfinite, hcanonical⟩, hamount⟩ := h
  cases u with
  | notANumber => cases hfinite
  | infinity s => cases hfinite
  | zero s =>
    have hread := ofFloat_pack_zero s
    constructor
    · intro _
      refine ⟨isFinite_iff.mpr ⟨_, _, _, hread⟩, ?_⟩
      rw [← hamount, toRat, hread, value, magnitude, Nat.cast_zero, zero_mul, mul_zero, amount_zero]
    · intro hlarge
      rw [← hamount, amount_zero, abs_zero] at hlarge
      exact absurd hlarge (not_le.mpr (by positivity))
  | finite s m e hm =>
    have hformat := hcanonical s m e hm rfl
    have hpos := magnitude_pos hm e
    have habs : |rounded q| = magnitude m e := by
      rw [← hamount, amount, abs_signFactor_mul s hpos.le]
    constructor
    · intro hless
      rw [habs, hformat.magnitude_lt_iff] at hless
      have hread := @ofFloat_pack_finite s m e hm hformat hless
      refine ⟨isFinite_iff.mpr ⟨_, _, _, hread⟩, ?_⟩
      rw [toRat, hread, ← hamount, value, amount]
      cases s <;> rfl
    · intro hmore
      rw [habs, ← not_lt, hformat.magnitude_lt_iff, not_le] at hmore
      have hread := @ofFloat_pack_overflow s m e hm hmore
      rw [hread, ← hamount, amount]
      cases s <;> simp [isMinus, signFactor, hpos, hpos.le]

variable {x : Float}

/-- The number of a finite double that something is rounded to. -/
theorem IsRounded.toRat_eq (h : IsRounded q x) (hx : x.isFinite = true) : toRat x = rounded q := by
  rcases lt_or_ge |rounded q| (2 ^ 1024) with hless | hmore
  · exact (h.number hless).2
  · obtain ⟨negative, m, e, hread⟩ := isFinite_iff.mp hx
    rw [h.infinite hmore] at hread
    cases hread

/-- A number is rounded to a finite double just when it is not too large. -/
theorem IsRounded.isFinite_iff (h : IsRounded q x) :
    x.isFinite = true ↔ |rounded q| < 2 ^ 1024 := by
  refine ⟨fun hx => ?_, fun hless => (h.number hless).1⟩
  by_contra hmore
  obtain ⟨negative, m, e, hread⟩ := Binary64.isFinite_iff.mp hx
  rw [h.infinite (not_lt.mp hmore)] at hread
  cases hread

/-- A magnitude of at most a short number is rounded to a finite double that is not past it. -/
theorem IsRounded.of_abs_le (h : IsRounded q x) {bound : ℚ} (hbound : IsShort bound)
    (hless : bound < 2 ^ 1024) (hq : |q| ≤ bound) :
    x.isFinite = true ∧ toRat x = rounded q ∧ |rounded q| ≤ bound := by
  have hrounded := hbound.abs_rounded_le hq
  obtain ⟨hfinite, hvalue⟩ := h.number (hrounded.trans_lt hless)
  exact ⟨hfinite, hvalue, hrounded⟩

/-- A magnitude of at most a power of two is rounded to a finite double that is not past it. -/
theorem IsRounded.of_abs_le_two_pow (h : IsRounded q x) {k : ℕ} (hk : k < 1024)
    (hq : |q| ≤ 2 ^ k) : x.isFinite = true ∧ toRat x = rounded q ∧ |rounded q| ≤ 2 ^ k :=
  h.of_abs_le (isShort_two_pow k) (pow_lt_pow_right₀ one_lt_two hk) hq

/-- A magnitude in units of the greatest spacing is rounded to a finite double, if they are not too
many. -/
theorem IsRounded.of_abs_le_units (h : IsRounded q x) {n : ℕ} (hn : n < 2 ^ 53)
    (hq : |q| ≤ n * 2 ^ (971 : ℤ)) :
    x.isFinite = true ∧ toRat x = rounded q ∧ |rounded q| ≤ n * 2 ^ (971 : ℤ) := by
  have hshort : IsShort (n * 2 ^ (971 : ℤ)) :=
    ⟨n, 971, by rw [Nat.abs_cast]; exact_mod_cast hn.le, by norm_num, by rw [Int.cast_natCast]⟩
  refine h.of_abs_le hshort ?_ hq
  have hn' : (n : ℚ) < 2 ^ 53 := by exact_mod_cast hn
  calc (n : ℚ) * 2 ^ (971 : ℤ) < 2 ^ 53 * 2 ^ (971 : ℤ) := by gcongr
    _ = 2 ^ 1024 := by rw [← zpow_natCast, ← zpow_natCast, ← zpow_add₀ two_ne_zero]; rfl

/-- A short number is rounded to its own double. -/
theorem IsRounded.of_isShort (h : IsRounded q x) (hq : IsShort q) (hless : |q| < 2 ^ 1024) :
    x.isFinite = true ∧ toRat x = q := by
  rw [← hq.rounded_eq] at hless
  rw [← hq.rounded_eq]
  exact hq.rounded_eq ▸ h.number hless

/-- A short number in the range of the doubles is the number of one. -/
theorem IsShort.exists_double (h : IsShort q) (hless : |q| < 2 ^ 1024) :
    ∃ x : Float, x.isFinite = true ∧ toRat x = q := by
  obtain ⟨n, e, -, -, hvalue⟩ := id h
  have hrounded := (rounds_normalize n e .positive).pack
  rw [← hvalue] at hrounded
  exact ⟨_, hrounded.of_isShort h hless⟩

/-- No finite double is nearer to the number. -/
structure IsNearest (q : ℚ) (x : Float) : Prop where
  isFinite : x.isFinite = true
  near : ∀ y : Float, y.isFinite = true → |toRat x - q| ≤ |toRat y - q|

/-- The finite double that a number is rounded to is nearest to it. -/
theorem IsRounded.isNearest (h : IsRounded q x) (hx : x.isFinite = true) : IsNearest q x := by
  refine ⟨hx, fun y _ => ?_⟩
  rw [h.toRat_eq hx]
  exact abs_rounded_sub_le_of_isShort (isShort_toRat y)

/-- A nearest double is as near as the rounded number. -/
theorem IsNearest.abs_sub_le (h : IsNearest q x) {k : ℕ} (hk : k < 1024) (hq : |q| ≤ 2 ^ k) :
    |toRat x - q| ≤ |rounded q - q| := by
  have hless := ((isShort_two_pow k).abs_rounded_le hq).trans_lt (pow_lt_pow_right₀ one_lt_two hk)
  obtain ⟨y, hy, hvalue⟩ := (isShort_rounded q).exists_double hless
  rw [← hvalue]
  exact h.near y hy

/-- A double nearest to a magnitude of at most a short number is not past it. -/
theorem IsNearest.abs_toRat_le (h : IsNearest q x) {bound : ℚ} (hbound : IsShort bound)
    (hless : bound < 2 ^ 1024) (hq : |q| ≤ bound) : |toRat x| ≤ bound := by
  obtain ⟨hlow, hhigh⟩ := abs_le.mp hq
  have hrange : |bound| < 2 ^ 1024 := by rwa [abs_of_nonneg ((abs_nonneg q).trans hq)]
  obtain ⟨above, habove, hvalue⟩ := hbound.exists_double hrange
  obtain ⟨below, hbelow, hvalue'⟩ := hbound.neg.exists_double (by rwa [abs_neg])
  have hnear := h.near above habove
  have hnear' := h.near below hbelow
  rw [hvalue, abs_of_nonneg (sub_nonneg.mpr hhigh)] at hnear
  rw [hvalue', abs_of_nonpos (sub_nonpos.mpr hlow)] at hnear'
  rw [abs_le] at hnear hnear' ⊢
  constructor <;> linarith

/-- The number of a finite double is less than the range of the doubles. -/
theorem abs_toRat_lt (x : Float) : |toRat x| < 2 ^ 1024 := by
  rw [Binary64.toRat_eq]
  cases hvalue : x.toModel.unpack with
  | finite s m e hm =>
    have hformat := isFormat_of_unpack hvalue
    rw [amount, abs_signFactor_mul s (magnitude_pos hm e).le]
    exact hformat.isCanonical.magnitude_lt_iff.mpr hformat.exponent_le
  | _ => simp [amount]

end Reckoner.Binary64
