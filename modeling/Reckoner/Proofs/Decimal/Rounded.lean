import Reckoner.Proofs.Binary64.Operations
import Reckoner.Proofs.Decimal.Value

/-!
# Decimals are rounded once

A number literal becomes the double that its exact decimal is rounded to, whatever its exponent is:
the quotient of the two integers is rounded at its own spacing, a mantissa that rounds up to the
next power of two carries into the exponent field, and the shortcuts for very large and very small
decimals give what rounding would give. Two doubles without signs that stand for the same number are
the same, so that rounding one number in two ways gives one double.
-/

namespace Reckoner.Binary64

open Float.Model

/-! ## Patterns -/

/-- What the pattern of a mantissa and an exponent stands for. -/
theorem ofBits_pattern {m : Nat} {e : ℤ} (h : IsFormat m e) :
    ofBits (pattern m e) = .finite false m e := by
  obtain ⟨hm, hlow, hhigh, hleading⟩ := h
  unfold ofBits pattern
  simp only [Nat.pow_eq]
  have hsign : ((e + 1074).toNat * 2 ^ 52 + m) / 2 ^ 63 % 2 ≠ 1 := by omega
  rw [if_neg (by omega), decide_eq_false hsign]
  rcases lt_or_ge m (2 ^ 52) with hsmall | hlarge
  · have hleast : e = -1074 := hleading.resolve_right (by omega)
    rw [if_pos (by omega), hleast]
    congr 1
    omega
  · rw [if_neg (by omega)]
    congr 1 <;> omega

/-- A mantissa that was rounded up to the next power of two carries into the exponent. -/
theorem exists_isCanonical {m : Nat} {e : ℤ} (hm : m ≤ 2 ^ 53) (he : -1074 ≤ e)
    (hleading : e = -1074 ∨ 2 ^ 52 ≤ m) :
    ∃ m' e', IsCanonical m' e' ∧ magnitude m' e' = magnitude m e ∧ pattern m' e' = pattern m e := by
  rcases lt_or_eq_of_le hm with hless | rfl
  · exact ⟨m, e, ⟨hless, he, hleading⟩, rfl, rfl⟩
  · refine ⟨2 ^ 52, e + 1, ⟨by decide, by omega, .inr le_rfl⟩, ?_, ?_⟩
    · unfold magnitude
      rw [zpow_add_one₀ two_ne_zero]
      push_cast
      ring
    · unfold pattern
      omega

/-! ## Quotients -/

/-- A finite double is the one that a number is rounded to if it stands for the rounded number. -/
theorem isRounded_of_toRat_eq {q : ℚ} {x : Float} (hx : x.isFinite = true)
    (hvalue : toRat x = rounded q) : IsRounded q x where
  number _ := ⟨hx, hvalue⟩
  infinite hlarge := by
    rw [← hvalue] at hlarge
    exact absurd hlarge (not_le.mpr (abs_toRat_lt x))

/-- The exponent of a quotient is the integer part of its binary logarithm. -/
theorem binaryExponent_eq_log {num den : Nat} (hnum : 0 < num) (hden : 0 < den) :
    binaryExponent num den = Int.log 2 ((num : ℚ) / den) := by
  obtain ⟨hlow, hhigh⟩ := binaryExponent_spec hnum hden
  have hpos : (0 : ℚ) < (num : ℚ) / den := by positivity
  have hle : binaryExponent num den ≤ Int.log 2 ((num : ℚ) / den) :=
    (Int.zpow_le_iff_le_log Nat.one_lt_two hpos).mp hlow
  have hlt : Int.log 2 ((num : ℚ) / den) < binaryExponent num den + 1 :=
    (Int.lt_zpow_iff_log_lt Nat.one_lt_two hpos).mp hhigh
  omega

/-- A number that is rounded to zero is rounded to the double without any bits. -/
theorem isRounded_zero {q : ℚ} (hq : rounded q = 0) : IsRounded q (Float.ofBits 0) := by
  have hread : ofFloat (Float.ofBits 0) = .finite false 0 (-1074) :=
    ofFloat_ofBits (Nat.zero_le _)
  refine isRounded_of_toRat_eq (isFinite_iff.mpr ⟨_, _, _, hread⟩) ?_
  rw [toRat, hread, hq]
  simp [value, magnitude]

/-- A number past the range of the doubles is rounded to infinity. -/
theorem isRounded_infinity {q : ℚ} (hq : 2 ^ 1024 ≤ q) :
    IsRounded q (Float.ofBits (UInt64.ofNat infinityBits)) := by
  have hrounded := (isShort_two_pow 1024).le_rounded hq
  have hpositive : 0 ≤ rounded q := (by positivity : (0 : ℚ) ≤ 2 ^ 1024).trans hrounded
  constructor
  · intro hless
    rw [abs_of_nonneg hpositive] at hless
    exact absurd hless (not_lt.mpr hrounded)
  · intro _
    rw [ofFloat_ofBits le_rfl, decide_eq_false (not_lt.mpr hpositive)]
    rfl

/-- A double whose pattern is that of a rounded number, or that of infinity where the pattern is past
the finite ones, is the one that the number is rounded to. -/
theorem isRounded_of_pattern {q : ℚ} {x : Float} {m : Nat} {e : ℤ} (hcanonical : IsCanonical m e)
    (hrounded : rounded q = magnitude m e)
    (hread : ofFloat x = ofBits (min infinityBits (pattern m e))) : IsRounded q x := by
  have hnonneg : 0 ≤ magnitude m e := by unfold magnitude; positivity
  have habs : |rounded q| = magnitude m e := by rw [hrounded, abs_of_nonneg hnonneg]
  constructor
  · intro hless
    rw [habs, hcanonical.magnitude_lt_iff] at hless
    have hformat : IsFormat m e :=
      ⟨hcanonical.mantissa_lt, hcanonical.exponent_ge, hless, hcanonical.leading⟩
    rw [Nat.min_eq_right hformat.pattern_lt.le, ofBits_pattern hformat] at hread
    refine ⟨isFinite_iff.mpr ⟨_, _, _, hread⟩, ?_⟩
    rw [toRat, hread, hrounded]
    simp [value]
  · intro hmore
    rw [habs, ← not_lt, hcanonical.magnitude_lt_iff] at hmore
    have hpast : infinityBits ≤ pattern m e := by
      have hlead : 2 ^ 52 ≤ m := hcanonical.leading.resolve_left (by omega)
      simp only [infinityBits, pattern, Nat.pow_eq]
      omega
    rw [Nat.min_eq_left hpast] at hread
    rw [hread, hrounded, decide_eq_false hnonneg.not_gt]
    rfl

/-- The unit in which a quotient is rounded is the spacing of the doubles around it. -/
theorem spacing_quotient {num den : Nat} (hnum : 0 < num) (hden : 0 < den) :
    spacing ((num : ℚ) / den) = max (-1074) (binaryExponent num den - 52) := by
  have hpos : (0 : ℚ) < (num : ℚ) / den := by positivity
  rw [binaryExponent_eq_log hnum hden, spacing, abs_of_pos hpos]

/-- Scaled to the spacing, a quotient is rounded to the mantissa of the rounded number. -/
theorem rounded_quotient (num : Nat) {den : Nat} (hden : 0 < den) :
    rounded ((num : ℚ) / den) =
      magnitude (roundHalfEven (num * 2 ^ (-spacing ((num : ℚ) / den)).toNat)
        (den * 2 ^ (spacing ((num : ℚ) / den)).toNat)) (spacing ((num : ℚ) / den)) := by
  have hinteger := roundHalfEven_eq_nearestInteger
    (num * 2 ^ (-spacing ((num : ℚ) / den)).toNat)
    (show 0 < den * 2 ^ (spacing ((num : ℚ) / den)).toNat by positivity)
  rw [scaled_div_scaled_neg num den 2 (spacing ((num : ℚ) / den))] at hinteger
  have hcast := congrArg (Int.cast (R := ℚ)) hinteger
  rw [Int.cast_natCast, Nat.cast_ofNat] at hcast
  rw [rounded, magnitude, hcast]

/-- The mantissa of a rounded number, at the spacing of the number, has 53 bits or is the next power
of two. -/
theorem mantissa_of_rounded {q : ℚ} {m : Nat} (hq : 0 < q)
    (hrounded : rounded q = magnitude m (spacing q)) :
    m ≤ 2 ^ 53 ∧ (spacing q = -1074 ∨ 2 ^ 52 ≤ m) := by
  have hunit : (0 : ℚ) < 2 ^ spacing q := by positivity
  constructor
  · have hle := rounded_le_spacing q
    rw [hrounded] at hle
    exact_mod_cast le_of_mul_le_mul_right hle hunit
  · rcases eq_or_lt_of_le (neg_1074_le_spacing q) with heq | hless
    · exact .inl heq.symm
    · right
      have hge := spacing_le_rounded hq hless
      rw [hrounded] at hge
      exact_mod_cast le_of_mul_le_mul_right hge hunit

/-- The double nearest to a quotient is the one that the quotient is rounded to. -/
theorem isRounded_nearest (num : Nat) {den : Nat} (hden : 0 < den) :
    IsRounded ((num : ℚ) / den) (nearest num den) := by
  rcases Nat.eq_zero_or_pos num with rfl | hnum
  · have hbits : nearestBits 0 den = 0 := if_pos rfl
    rw [Nat.cast_zero, zero_div, nearest, hbits]
    exact isRounded_zero rounded_zero
  · have hpos : (0 : ℚ) < (num : ℚ) / den := by positivity
    have hrounded := rounded_quotient num hden
    have hspacing := spacing_quotient hnum hden
    obtain ⟨hmax, hleading⟩ := mantissa_of_rounded hpos hrounded
    obtain ⟨m, e, hcanonical, hmagnitude, hpattern⟩ :=
      exists_isCanonical hmax (neg_1074_le_spacing _) hleading
    refine isRounded_of_pattern hcanonical (hrounded.trans hmagnitude.symm) ?_
    have hbits : nearestBits num den = min infinityBits (pattern m e) := by
      rw [nearestBits, if_neg hnum.ne', hpattern]
      simp only [Nat.pow_eq]
      rw [← hspacing]
      rfl
    rw [← hbits]
    exact ofFloat_ofBits (nearestBits_le num den)

/-! ## Doubles with the same number -/

variable {x y : Float}

/-- The bits of a finite double are its sign and the pattern of its mantissa and exponent. -/
theorem toBits_of_ofFloat {negative : Bool} {m : Nat} {e : ℤ}
    (hx : ofFloat x = .finite negative m e) :
    x.toBits.toNat = (if negative then 2 ^ 63 else 0) + pattern m e := by
  have hbits := x.toBits.toNat_lt
  unfold ofFloat at hx
  generalize x.toBits.toNat = bits at *
  -- Mantissa and exponent are fields of the bits below the sign.
  have hsplit {negative : Bool} (hsign : decide (bits / 2 ^ 63 % 2 = 1) = negative)
      (hpattern : pattern m e = bits % 2 ^ 63) :
      bits = (if negative then 2 ^ 63 else 0) + pattern m e := by
    rw [hpattern, ← hsign]
    by_cases hset : bits / 2 ^ 63 % 2 = 1
    · rw [decide_eq_true hset, if_pos rfl]
      omega
    · rw [decide_eq_false hset, if_neg Bool.false_ne_true]
      omega
  simp only [ofBits, Nat.pow_eq] at hx
  split at hx
  · split at hx <;> cases hx
  · split at hx
    · obtain ⟨hsign, rfl, rfl⟩ := Binary64.finite.inj hx
      refine hsplit hsign ?_
      unfold pattern
      omega
    · obtain ⟨hsign, rfl, rfl⟩ := Binary64.finite.inj hx
      refine hsplit hsign ?_
      unfold pattern
      omega

/-- Finite doubles that are read alike are the same. -/
theorem eq_of_ofFloat_eq {negative : Bool} {m : Nat} {e : ℤ}
    (hx : ofFloat x = .finite negative m e) (hy : ofFloat y = .finite negative m e) : x = y := by
  have hbits : x.toBits = y.toBits :=
    UInt64.toNat_inj.mp ((toBits_of_ofFloat hx).trans (toBits_of_ofFloat hy).symm)
  rw [← Float.ofBits_toBits x, hbits, Float.ofBits_toBits]

/-- Doubles without signs that stand for the same number are the same. -/
theorem eq_of_toRat_eq {m m' : Nat} {e e' : ℤ} (hx : ofFloat x = .finite false m e)
    (hy : ofFloat y = .finite false m' e') (hsame : toRat x = toRat y) : x = y := by
  have hmagnitude : magnitude m e = magnitude m' e' := by
    rw [toRat, toRat, hx, hy] at hsame
    simpa [value] using hsame
  have hcompare := compare_magnitude (isFormat_of_ofFloat hx).isCanonical
    (isFormat_of_ofFloat hy).isCanonical
  rw [hmagnitude, compare_eq_iff_eq.mpr rfl, Ordering.then_eq_eq] at hcompare
  obtain ⟨hexponent, hmantissa⟩ := hcompare
  obtain rfl := compare_eq_iff_eq.mp hexponent
  obtain rfl := compare_eq_iff_eq.mp hmantissa
  exact eq_of_ofFloat_eq hx hy

/-- A sign before a finite double changes its sign and nothing else. -/
theorem ofFloat_neg {negative : Bool} {m : Nat} {e : ℤ} (hx : ofFloat x = .finite negative m e) :
    ofFloat (-x) = .finite (!negative) m e := by
  have hnegated : -x = Float.ofModel (Float.Model.pack x.toModel.unpack.neg) := rfl
  have hsign (s : UnpackedFloat.Sign) : isMinus (-s) = !isMinus s := by cases s <;> rfl
  rw [hnegated]
  rw [ofFloat_eq] at hx
  cases hvalue : x.toModel.unpack with
  | notANumber => rw [hvalue] at hx; cases hx
  | infinity s => rw [hvalue] at hx; cases hx
  | zero s =>
    rw [hvalue] at hx
    obtain ⟨rfl, rfl, rfl⟩ := Binary64.finite.inj hx
    rw [UnpackedFloat.neg, ofFloat_pack_zero, hsign]
  | finite s m' e' hm =>
    have hformat := isFormat_of_unpack hvalue
    rw [hvalue] at hx
    obtain ⟨rfl, rfl, rfl⟩ := Binary64.finite.inj hx
    rw [UnpackedFloat.neg, ofFloat_pack_finite hformat.isCanonical hformat.exponent_le, hsign]

/-- Two signs before a finite double are none. -/
theorem neg_neg_of_isFinite (hx : x.isFinite = true) : - -x = x := by
  obtain ⟨negative, m, e, hread⟩ := isFinite_iff.mp hx
  have htwice := ofFloat_neg (ofFloat_neg hread)
  rw [Bool.not_not] at htwice
  exact eq_of_ofFloat_eq htwice hread

end Reckoner.Binary64

namespace Reckoner.Decimal

open Binary64

/-- A decimal far below the least positive double is rounded to zero. -/
theorem rounded_of_lt {q : ℚ} (hnonneg : 0 ≤ q) (hsmall : q < 10 ^ (-325 : ℤ)) :
    rounded q = 0 := by
  have hhalf := hsmall.trans_le ten_zpow_le_half_least
  have hunit : (0 : ℚ) < 2 ^ (-1074 : ℤ) := by positivity
  rcases eq_or_lt_of_le hnonneg with rfl | hpos
  · exact rounded_zero
  · have hspacing : spacing q = -1074 := by
      refine le_antisymm (spacing_le le_rfl hpos.ne' ?_) (neg_1074_le_spacing q)
      rw [abs_of_pos hpos]
      linarith
    have hzero : nearestInteger (q / 2 ^ (-1074 : ℤ)) = 0 := by
      have hquotient : q / 2 ^ (-1074 : ℤ) < 1 / 2 := by
        rw [div_lt_iff₀ hunit]
        exact hhalf
      have habs : |q / 2 ^ (-1074 : ℤ) - (0 : ℤ)| < 1 / 2 := by
        rw [Int.cast_zero, sub_zero, abs_of_nonneg (by positivity)]
        exact hquotient
      exact IsNearestInteger.eq ⟨habs.le, fun htie => absurd htie habs.ne⟩
    rw [rounded, hspacing, hzero, Int.cast_zero, zero_mul]

/-- A decimal is read as the double that its number is rounded to. -/
theorem isRounded_toFloat (d : Decimal) : IsRounded d.value d.toFloat := by
  have hnonneg : 0 ≤ d.value := by unfold value; positivity
  unfold toFloat
  dsimp only
  split
  · next hzero =>
    refine isRounded_zero ?_
    rcases Nat.eq_zero_or_pos d.coefficient with hcoefficient | hcoefficient
    · rw [value, hcoefficient, Nat.cast_zero, zero_mul, rounded_zero]
    · have hsize := hzero.resolve_left hcoefficient.ne'
      have hhigh := (leadingExponent_spec hcoefficient).2
      unfold leadingExponent at hhigh
      refine rounded_of_lt hnonneg (hhigh.trans_le (zpow_le_zpow_right₀ (by norm_num) ?_))
      omega
  · next hnonzero =>
    rw [not_or] at hnonzero
    have hcoefficient := Nat.pos_of_ne_zero hnonzero.1
    split
    · next hsize =>
      have hlow := (leadingExponent_spec hcoefficient).1
      unfold leadingExponent at hlow
      refine isRounded_infinity ?_
      calc (2 : ℚ) ^ 1024 ≤ 10 ^ (310 : ℤ) := two_pow_lt_ten_zpow.le
        _ ≤ 10 ^ (d.exponent + (digits d.coefficient).length - 1) :=
          zpow_le_zpow_right₀ (by norm_num) (by omega)
        _ ≤ d.value := hlow
    · have hquotient : ((d.coefficient * 10 ^ d.exponent.toNat : Nat) : ℚ)
          / ((10 ^ (-d.exponent).toNat : Nat) : ℚ) = d.value := by
        have h := scaled_div_scaled d.coefficient 1 10 d.exponent
        rw [one_mul, Nat.cast_one, div_one] at h
        exact h
      rw [← hquotient]
      exact isRounded_nearest _ (by positivity)

/-- A decimal that is rounded to the number of a double without a sign is read as the double. -/
theorem toFloat_eq_of_isRounded {d : Decimal} {x : Float} {m : Nat} {e : ℤ}
    (hx : ofFloat x = .finite false m e) (hrounded : IsRounded d.value x) : d.toFloat = x := by
  have hfinite : x.isFinite = true := isFinite_iff.mpr ⟨_, _, _, hx⟩
  have hread := d.isRounded_toFloat
  have hdecimal := hread.isFinite_iff.mpr (hrounded.isFinite_iff.mp hfinite)
  obtain ⟨m', e', hvalue⟩ : ∃ m' e', ofFloat d.toFloat = .finite false m' e' := by
    refine d.ofFloat_toFloat.resolve_left fun hinfinite => ?_
    obtain ⟨negative, m', e', hnumber⟩ := isFinite_iff.mp hdecimal
    rw [hinfinite] at hnumber
    cases hnumber
  exact eq_of_toRat_eq hvalue hx ((hread.toRat_eq hdecimal).trans (hrounded.toRat_eq hfinite).symm)

end Reckoner.Decimal
