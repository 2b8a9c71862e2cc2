import Reckoner.Proofs.Binary64.Arithmetic
import Reckoner.Proofs.Binary64.Rounded

/-!
# The number of a double

A double is read off its bits in two ways, by `Binary64.ofFloat` and by the unpacking that its
operations start with. This file shows that both find the same number, that packing a number of few
bits loses nothing, and that finite doubles are in the order of their numbers.
-/

namespace Reckoner.Binary64

open Float.Model Float.Model.UnpackedFloat

/-! ## Two readings of the bits -/

/-- Whether a sign is the negative one. -/
def isMinus : Sign → Bool
  | .negative => true
  | .positive => false

/-- What an unpacked double is. -/
def ofUnpacked : UnpackedFloat → Binary64
  | .notANumber => .nan
  | .infinity s => .infinite (isMinus s)
  | .zero s => .finite (isMinus s) 0 (-1074)
  | .finite s m e _ => .finite (isMinus s) m e

/-- A pattern is unpacked as what it is read as. -/
theorem ofBits_toNat (v : BitVec 64) :
    ofBits v.toNat = ofUnpacked (UnpackedFloat.unpack .binary64 v) := by
  have hmantissa := toNat_unpackMantissa v
  have hexponent := toNat_unpackExponent v
  have hsign : decide (v.toNat / 2 ^ 63 % 2 = 1) =
      isMinus (Sign.ofBitVec (@unpackSign .binary64 v)) := by
    rw [← toNat_unpackSign, Sign.ofBitVec]
    split
    · next hzero => simp [hzero, isMinus]
    · next hone =>
      have hne : (@unpackSign .binary64 v).toNat ≠ 0 := fun h =>
        hone (BitVec.eq_of_toNat_eq h)
      have hlt := (@unpackSign .binary64 v).isLt
      rw [isMinus, decide_eq_true_eq]
      omega
  have hbias : ((Format.exponentBias .binary64 : Nat) : Int) + (52 : Nat) = 1075 := by decide
  unfold ofBits UnpackedFloat.unpack
  simp only [Nat.pow_eq, hbias, hsign, ← hmantissa, ← hexponent]
  generalize Sign.ofBitVec (@unpackSign .binary64 v) = s
  generalize @unpackExponent .binary64 v = biased
  have hspecial : biased.toNat = 2047 ↔ biased = -1#11 := BitVec.toNat_inj (y := -1#11)
  have hleast : biased.toNat = 0 ↔ biased = 0#11 := BitVec.toNat_inj (y := 0#11)
  have hzero : (@unpackMantissa .binary64 v).toNat = 0 ↔ @unpackMantissa .binary64 v = 0#52 :=
    BitVec.toNat_inj (y := 0#52)
  simp only [hspecial, hleast]
  split
  · simp only [hzero]
    split <;> rfl
  · split
    · next hsmall =>
      split
      · next hnone => rw [hnone]; rfl
      · rw [hsmall]; rfl
    · rw [ofUnpacked, toNat_leading]

/-- A double is unpacked as what it is read as. -/
theorem ofFloat_eq (x : Float) : ofFloat x = ofUnpacked x.toModel.unpack :=
  ofBits_toNat x.toBits.toBitVec

/-- A packed double is what its pattern is read as. -/
theorem ofFloat_pack (u : UnpackedFloat) :
    ofFloat (Float.ofModel (Float.Model.pack u)) =
      ofUnpacked (UnpackedFloat.unpack .binary64 (UnpackedFloat.pack .binary64 u)) :=
  ofBits_toNat (UnpackedFloat.pack .binary64 u)

/-! ## Packing -/

/-- What is packed of a number that is not too large is the number. -/
theorem ofFloat_pack_finite {s : Sign} {m : Nat} {e : ℤ} {hm : 0 < m} (h : IsCanonical m e)
    (he : e ≤ 971) :
    ofFloat (Float.ofModel (Float.Model.pack (.finite s m e hm))) = .finite (isMinus s) m e := by
  obtain ⟨hmax, hmin, hleading⟩ := h
  have hbias : ((Format.exponentBias .binary64 : Nat) : ℤ) = 1023 := by decide
  have hbits : Format.mantissaBits .binary64 = 53 := rfl
  have hones : (-1#11).toNat = 2047 := by decide
  rw [ofFloat_pack]
  unfold UnpackedFloat.pack
  simp only [hbias, hbits]
  rw [if_neg (by omega)]
  have hlog : m.log2 + 1 = 53 ↔ 2 ^ 52 ≤ m := by
    have hlow := @Nat.le_log2 m 52 hm.ne'
    have hhigh := (Nat.log2_lt hm.ne').mpr hmax
    omega
  split
  · next hnormal =>
    have hlarge := hlog.mp hnormal
    have hfield : (BitVec.ofNat 11 (e + 1023 + (52 : Nat)).toNat).toNat = (e + 1075).toNat := by
      rw [BitVec.toNat_ofNat, Nat.mod_eq_of_lt (by omega)]
      omega
    unfold UnpackedFloat.unpack
    simp only [unpackExponent_packComponents, unpackMantissa_packComponents,
      unpackSign_packComponents, Sign.ofBitVec_toBitVec]
    rw [if_neg, if_neg, ofUnpacked, toNat_leading, hfield, BitVec.toNat_ofNat]
    · congr 1
      · omega
      · rw [hbias]
        omega
    · intro h
      have := hfield.symm.trans (congrArg BitVec.toNat h)
      simp at this
      omega
    · intro h
      have := hfield.symm.trans (congrArg BitVec.toNat h)
      omega
  · next hsubnormal =>
    have hsmall : m < 2 ^ 52 := not_le.mp fun h => hsubnormal (hlog.mpr h)
    have hleast : e = -1074 := hleading.resolve_right (not_le.mpr hsmall)
    have hfield : (BitVec.ofNat 52 m).toNat = m := by
      rw [BitVec.toNat_ofNat, Nat.mod_eq_of_lt hsmall]
    unfold UnpackedFloat.unpack
    simp only [unpackExponent_packComponents, unpackMantissa_packComponents,
      unpackSign_packComponents, Sign.ofBitVec_toBitVec]
    rw [if_neg (by decide), if_pos trivial, dif_neg, ofUnpacked, hfield, hleast]
    · rfl
    · intro h
      have := hfield.symm.trans (congrArg BitVec.toNat h)
      simp at this
      omega

/-- What is packed of a number that is too large is infinite. -/
theorem ofFloat_pack_overflow {s : Sign} {m : Nat} {e : ℤ} {hm : 0 < m} (he : 971 < e) :
    ofFloat (Float.ofModel (Float.Model.pack (.finite s m e hm))) = .infinite (isMinus s) := by
  have hbias : ((Format.exponentBias .binary64 : Nat) : ℤ) = 1023 := by decide
  rw [ofFloat_pack]
  unfold UnpackedFloat.pack
  simp only [hbias]
  rw [if_pos (by omega)]
  unfold UnpackedFloat.unpack packedInfinity
  simp only [unpackExponent_packComponents, unpackMantissa_packComponents,
    unpackSign_packComponents, Sign.ofBitVec_toBitVec]
  rfl

/-- What is packed of zero is zero. -/
theorem ofFloat_pack_zero (s : Sign) :
    ofFloat (Float.ofModel (Float.Model.pack (.zero s))) = .finite (isMinus s) 0 (-1074) := by
  rw [ofFloat_pack]
  unfold UnpackedFloat.pack UnpackedFloat.unpack packedZero
  simp only [unpackExponent_packComponents, unpackMantissa_packComponents,
    unpackSign_packComponents, Sign.ofBitVec_toBitVec]
  rfl

/-! ## Numbers -/

/-- The number that a finite double stands for. -/
def value : Binary64 → ℚ
  | .finite negative mantissa exponent =>
      (if negative then -1 else 1) * magnitude mantissa exponent
  | _ => 0

/-- The number of a finite double. -/
def toRat (x : Float) : ℚ :=
  (ofFloat x).value

/-- What a sign multiplies a magnitude by. -/
def signFactor : Sign → ℚ
  | .negative => -1
  | .positive => 1

/-- The number of an unpacked double. -/
def amount : UnpackedFloat → ℚ
  | .finite s m e _ => signFactor s * magnitude m e
  | _ => 0

@[simp] theorem amount_zero (s : Sign) : amount (.zero s) = 0 := rfl

/-- Both readings of a double find the same number. -/
theorem toRat_eq (x : Float) : toRat x = amount x.toModel.unpack := by
  rw [toRat, ofFloat_eq]
  cases x.toModel.unpack with
  | notANumber => rfl
  | infinity s => rfl
  | zero s => simp [ofUnpacked, value, magnitude, amount]
  | finite s m e hm => cases s <;> simp [ofUnpacked, value, amount, isMinus, signFactor]

/-- A double is finite just when it is read as a number. -/
theorem isFinite_iff {x : Float} :
    x.isFinite = true ↔ ∃ negative m e, ofFloat x = .finite negative m e := by
  rw [ofFloat_eq]
  show x.toModel.unpack.isFinite = true ↔ _
  cases x.toModel.unpack <;> simp [UnpackedFloat.isFinite, ofUnpacked]

/-- What a finite double is read as has the mantissa and the exponent of one. -/
theorem isFormat_of_ofFloat {x : Float} {negative : Bool} {m : Nat} {e : ℤ}
    (hx : ofFloat x = .finite negative m e) : IsFormat m e := by
  rw [ofFloat_eq] at hx
  cases hvalue : x.toModel.unpack with
  | notANumber => rw [hvalue] at hx; cases hx
  | infinity s => rw [hvalue] at hx; cases hx
  | zero s =>
    rw [hvalue] at hx
    obtain ⟨-, rfl, rfl⟩ := Binary64.finite.inj hx
    exact ⟨by decide, by decide, by decide, .inl rfl⟩
  | finite s m' e' hm =>
    rw [hvalue] at hx
    obtain ⟨-, rfl, rfl⟩ := Binary64.finite.inj hx
    exact isFormat_of_unpack hvalue

/-- The number of a finite double, as its sign and its quotient. -/
theorem toRat_of_ofFloat {x : Float} {negative : Bool} {m : Nat} {e : ℤ}
    (hx : ofFloat x = .finite negative m e) :
    toRat x = (if negative then -1 else 1) * ((numerator m e : ℚ) / denominator e) := by
  rw [toRat, hx, value, numerator_div_denominator]

/-- The quotient of a finite double is its magnitude. -/
theorem abs_toRat_of_ofFloat {x : Float} {negative : Bool} {m : Nat} {e : ℤ}
    (hx : ofFloat x = .finite negative m e) :
    |toRat x| = (numerator m e : ℚ) / denominator e := by
  rw [toRat_of_ofFloat hx, abs_mul,
    abs_of_nonneg (by positivity : (0 : ℚ) ≤ numerator m e / denominator e)]
  cases negative <;> simp

/-- A number that is not zero has a positive numerator. -/
theorem numerator_pos_of_toRat_ne_zero {x : Float} {negative : Bool} {m : Nat} {e : ℤ}
    (hx : ofFloat x = .finite negative m e) (hne : toRat x ≠ 0) : 0 < numerator m e := by
  rw [Nat.pos_iff_ne_zero]
  intro hzero
  rw [toRat_of_ofFloat hx, hzero, Nat.cast_zero, zero_div, mul_zero] at hne
  exact hne rfl

/-- The number of a finite double has few bits. -/
theorem isShort_toRat (x : Float) : IsShort (toRat x) := by
  rw [toRat_eq]
  cases hvalue : x.toModel.unpack with
  | finite s m e hm =>
    obtain ⟨hmax, hmin, -⟩ := isFormat_of_unpack hvalue
    have hbits : |(m : ℤ)| ≤ 2 ^ 53 := by
      rw [Nat.abs_cast]
      exact_mod_cast hmax.le
    cases s with
    | positive => exact ⟨m, e, hbits, hmin, by simp [amount, signFactor, magnitude]⟩
    | negative => exact ⟨-m, e, by rwa [abs_neg], hmin, by simp [amount, signFactor, magnitude]⟩
  | _ => exact ⟨0, 0, by norm_num, by omega, by simp [amount]⟩

/-! ## Order -/

variable {x y : Float}

/-- Two numbers are compared by their exponents first, as only the least exponent has mantissas
without the leading bit. -/
theorem compare_magnitude {m m' : Nat} {e e' : ℤ} (h : IsCanonical m e) (h' : IsCanonical m' e') :
    (compare e e').then (compare m m') = compare (magnitude m e) (magnitude m' e') := by
  have hless {m m' : Nat} {e e' : ℤ} (h : IsCanonical m e) (h' : IsCanonical m' e')
      (hlt : e < e') : magnitude m e < magnitude m' e' := by
    have hlead : 2 ^ 52 ≤ m' := h'.leading.resolve_left (by have := h.exponent_ge; omega)
    have hmax : (m : ℚ) < 2 ^ 53 := by exact_mod_cast h.mantissa_lt
    have hmin : (2 : ℚ) ^ 52 ≤ m' := by exact_mod_cast hlead
    have hstep : (2 : ℚ) ^ (e + 1) ≤ 2 ^ e' := zpow_le_zpow_right₀ one_le_two (by omega)
    rw [zpow_add_one₀ two_ne_zero] at hstep
    calc (m : ℚ) * 2 ^ e < 2 ^ 53 * 2 ^ e := by gcongr
      _ = 2 ^ 52 * (2 ^ e * 2) := by ring
      _ ≤ m' * 2 ^ e' := by gcongr
  rcases lt_trichotomy e e' with hlt | rfl | hgt
  · rw [compare_lt_iff_lt.mpr hlt, compare_lt_iff_lt.mpr (hless h h' hlt)]
    rfl
  · have hpos : (0 : ℚ) < 2 ^ e := by positivity
    rw [compare_eq_iff_eq.mpr rfl]
    rcases lt_trichotomy m m' with hlt | rfl | hgt
    · have hscaled : magnitude m e < magnitude m' e :=
        mul_lt_mul_of_pos_right (Nat.cast_lt.mpr hlt) hpos
      rw [compare_lt_iff_lt.mpr hlt, compare_lt_iff_lt.mpr hscaled]
      rfl
    · rw [compare_eq_iff_eq.mpr rfl, compare_eq_iff_eq.mpr rfl]
      rfl
    · have hscaled : magnitude m' e < magnitude m e :=
        mul_lt_mul_of_pos_right (Nat.cast_lt.mpr hgt) hpos
      rw [compare_gt_iff_gt.mpr hgt, compare_gt_iff_gt.mpr hscaled]
      rfl
  · rw [compare_gt_iff_gt.mpr hgt, compare_gt_iff_gt.mpr (hless h' h hgt)]
    rfl

/-- A number that is not zero has a magnitude. -/
theorem magnitude_pos {m : Nat} (hm : 0 < m) (e : ℤ) : 0 < magnitude m e :=
  mul_pos (Nat.cast_pos.mpr hm) (by positivity)

/-- Finite doubles are compared as their numbers. -/
theorem compare_unpack (hx : x.isFinite = true) (hy : y.isFinite = true) :
    x.toModel.unpack.compare y.toModel.unpack = some (compare (toRat x) (toRat y)) := by
  have hfinitex : x.toModel.unpack.isFinite = true := hx
  have hfinitey : y.toModel.unpack.isFinite = true := hy
  rw [toRat_eq, toRat_eq]
  have hamount (s : Sign) (m : Nat) (e : ℤ) (hm : 0 < m) : amount (.finite s m e hm) =
      if isMinus s then -magnitude m e else magnitude m e := by
    cases s <;> simp [amount, signFactor, isMinus]
  cases hvaluex : x.toModel.unpack with
  | notANumber => rw [hvaluex] at hfinitex; cases hfinitex
  | infinity s => rw [hvaluex] at hfinitex; cases hfinitex
  | zero s =>
    cases hvaluey : y.toModel.unpack with
    | notANumber => rw [hvaluey] at hfinitey; cases hfinitey
    | infinity s => rw [hvaluey] at hfinitey; cases hfinitey
    | zero s' => exact congrArg some (compare_eq_iff_eq.mpr rfl).symm
    | finite s' m' e' hm' =>
      have hpos := magnitude_pos hm' e'
      rw [hamount]
      cases s' with
      | positive => exact congrArg some (compare_lt_iff_lt.mpr hpos).symm
      | negative => exact congrArg some (compare_gt_iff_gt.mpr (neg_neg_of_pos hpos)).symm
  | finite s m e hm =>
    have hpos := magnitude_pos hm e
    have hcanonical := (isFormat_of_unpack hvaluex).isCanonical
    cases hvaluey : y.toModel.unpack with
    | notANumber => rw [hvaluey] at hfinitey; cases hfinitey
    | infinity s => rw [hvaluey] at hfinitey; cases hfinitey
    | zero s' =>
      rw [hamount]
      cases s with
      | positive => exact congrArg some (compare_gt_iff_gt.mpr hpos).symm
      | negative => exact congrArg some (compare_lt_iff_lt.mpr (neg_neg_of_pos hpos)).symm
    | finite s' m' e' hm' =>
      have hpos' := magnitude_pos hm' e'
      have hcanonical' := (isFormat_of_unpack hvaluey).isCanonical
      rw [hamount, hamount]
      cases s with
      | positive =>
        cases s' with
        | positive => exact congrArg some (compare_magnitude hcanonical hcanonical')
        | negative =>
          exact congrArg some (compare_gt_iff_gt.mpr ((neg_neg_of_pos hpos').trans hpos)).symm
      | negative =>
        cases s' with
        | positive =>
          exact congrArg some (compare_lt_iff_lt.mpr ((neg_neg_of_pos hpos).trans hpos')).symm
        | negative =>
          show some ((compare e e').then (compare m m')).swap = _
          rw [compare_magnitude hcanonical hcanonical']
          refine congrArg some ?_
          show _ = compare (-magnitude m e) (-magnitude m' e')
          rcases lt_trichotomy (magnitude m e) (magnitude m' e') with hlt | heq | hgt
          · rw [compare_lt_iff_lt.mpr hlt, compare_gt_iff_gt.mpr (neg_lt_neg hlt)]
            rfl
          · rw [heq, compare_eq_iff_eq.mpr rfl, compare_eq_iff_eq.mpr rfl]
            rfl
          · rw [compare_gt_iff_gt.mpr hgt, compare_lt_iff_lt.mpr (neg_lt_neg hgt)]
            rfl

/-- One finite double is at most another just when its number is. -/
theorem le_iff (hx : x.isFinite = true) (hy : y.isFinite = true) : x ≤ y ↔ toRat x ≤ toRat y := by
  have hmodel : x ≤ y ↔ (x.toModel.unpack.compare y.toModel.unpack).any (·.isLE) = true :=
    decide_eq_true_iff
  rw [hmodel, compare_unpack hx hy, Option.any_some, ← compare_le_iff_le, Ordering.isLE_iff_ne_gt]

/-- One finite double is less than another just when its number is. -/
theorem lt_iff (hx : x.isFinite = true) (hy : y.isFinite = true) : x < y ↔ toRat x < toRat y := by
  have hmodel : x < y ↔ (x.toModel.unpack.compare y.toModel.unpack == some .lt) = true :=
    decide_eq_true_iff
  rw [hmodel, compare_unpack hx hy, ← compare_lt_iff_lt, beq_iff_eq, Option.some.injEq]

end Reckoner.Binary64
