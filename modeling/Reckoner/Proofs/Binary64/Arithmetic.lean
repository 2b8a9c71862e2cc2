import Reckoner.Proofs.Binary64.Bits

/-!
# Arithmetic of doubles

An operation on doubles unpacks its operands, computes with the numbers that they stand for, and
packs the rounded result. This file proves what evaluations rest on: what is undefined stays
undefined, multiplying by one changes nothing, and dividing by a positive number keeps the sign.
-/

namespace Reckoner.Binary64

open Float.Model Float.Model.UnpackedFloat

variable {x y : Float}

/-! ## Undefined operands -/

/-- A double is undefined just when it is unpacked as no number. -/
theorem isNaN_iff_unpack : x.isNaN = true ↔ x.toModel.unpack = .notANumber :=
  UnpackedFloat.isNaN_iff

/-- What is packed of no number is undefined. -/
theorem isNaN_pack_notANumber : (Float.ofModel (Float.Model.pack .notANumber)).isNaN = true :=
  isNaN_iff_unpack.mpr unpack_packedNaN

/-- An operation that makes no number of what is none is undefined where an operand is. -/
theorem isNaN_of_strict (op : UnpackedFloat → UnpackedFloat → UnpackedFloat)
    (hleft : ∀ b, op .notANumber b = .notANumber) (hright : ∀ a, op a .notANumber = .notANumber)
    (h : x.isNaN = true ∨ y.isNaN = true) :
    (Float.ofModel (Float.Model.pack (op x.toModel.unpack y.toModel.unpack))).isNaN = true := by
  rw [isNaN_iff_unpack, isNaN_iff_unpack] at h
  rcases h with hx | hy
  · rw [hx, hleft, isNaN_pack_notANumber]
  · rw [hy, hright, isNaN_pack_notANumber]

/-- A sum with an undefined operand is undefined. -/
theorem isNaN_add (h : x.isNaN = true ∨ y.isNaN = true) : (x + y).isNaN = true :=
  isNaN_of_strict (UnpackedFloat.add .binary64) (fun _ => rfl)
    (fun a => by cases a <;> rfl) h

/-- A difference with an undefined operand is undefined. -/
theorem isNaN_sub (h : x.isNaN = true ∨ y.isNaN = true) : (x - y).isNaN = true :=
  isNaN_of_strict (UnpackedFloat.sub .binary64) (fun _ => rfl)
    (fun a => by cases a <;> rfl) h

/-- A product with an undefined operand is undefined. -/
theorem isNaN_mul (h : x.isNaN = true ∨ y.isNaN = true) : (x * y).isNaN = true :=
  isNaN_of_strict (UnpackedFloat.mul .binary64) (fun _ => rfl)
    (fun a => by cases a <;> rfl) h

/-- A quotient with an undefined operand is undefined. -/
theorem isNaN_div (h : x.isNaN = true ∨ y.isNaN = true) : (x / y).isNaN = true :=
  isNaN_of_strict (UnpackedFloat.div .binary64) (fun _ => rfl)
    (fun a => by cases a <;> rfl) h

/-- What is undefined stays so with the other sign. -/
theorem isNaN_neg (h : x.isNaN = true) : (-x).isNaN = true := by
  show (Float.ofModel (Float.Model.pack (UnpackedFloat.neg x.toModel.unpack))).isNaN = true
  rw [isNaN_iff_unpack.mp h]
  exact isNaN_pack_notANumber

/-! ## Multiplying by one -/

/-- The leading bit stands above the mantissa field. -/
theorem toNat_leading (v : BitVec 52) :
    (1#1 ++ v : BitVec (1 + 52)).toNat = 2 ^ 52 + v.toNat := by
  have hor := Nat.two_pow_add_eq_or_of_lt v.isLt 1
  rw [BitVec.toNat_append, Nat.shiftLeft_eq]
  simpa using hor.symm

/-- A number that a double is unpacked as has the mantissa and the exponent of one. -/
theorem isFormat_of_unpack {s : Sign} {m : Nat} {e : Int} {hm : 0 < m}
    (hx : x.toModel.unpack = .finite s m e hm) : IsFormat m e := by
  have hbias : ((Format.exponentBias .binary64 : Nat) : Int) + (52 : Nat) = 1075 := by decide
  have hmantissa := toNat_unpackMantissa x.toModel.toBits.toBitVec
  have hexponent := toNat_unpackExponent x.toModel.toBits.toBitVec
  unfold Float.Model.unpack UnpackedFloat.unpack at hx
  simp only [hbias] at hx
  split at hx
  · split at hx <;> cases hx
  · next hspecial =>
    have hlt : (@unpackExponent .binary64 x.toModel.toBits.toBitVec).toNat ≠ 2047 := fun h =>
      hspecial (BitVec.eq_of_toNat_eq h)
    split at hx
    · next hsmall =>
      have hzero : (@unpackExponent .binary64 x.toModel.toBits.toBitVec).toNat = 0 :=
        congrArg BitVec.toNat hsmall
      split at hx
      · cases hx
      · obtain ⟨rfl, rfl, rfl⟩ := UnpackedFloat.finite.inj hx
        exact ⟨by omega, by omega, by omega, .inl (by omega)⟩
    · next hlarge =>
      have hpos : (@unpackExponent .binary64 x.toModel.toBits.toBitVec).toNat ≠ 0 := fun h =>
        hlarge (BitVec.eq_of_toNat_eq h)
      obtain ⟨rfl, rfl, rfl⟩ := UnpackedFloat.finite.inj hx
      rw [toNat_leading]
      exact ⟨by omega, by omega, by omega, .inr (by omega)⟩

/-- A shift by some places adds them to the length. -/
theorem log2_two_pow_mul {m : Nat} (hm : 0 < m) (k : Nat) : (2 ^ k * m).log2 = k + m.log2 := by
  induction k with
  | zero => simp
  | succ k ih =>
    have hne : 2 ^ k * m ≠ 0 := by positivity
    rw [pow_succ', mul_assoc, Nat.log2_two_mul hne, ih]
    omega

/-- A shift to the right takes back one to the left, and nothing is lost. -/
theorem shiftRight_shifted (m k : Nat) :
    (⟨2 ^ k * m, false, false⟩ : ExtendedMantissa) >>> k = ⟨m, false, false⟩ := by
  show Nat.repeat ExtendedMantissa.shiftRightOne k _ = _
  have hone (n : Nat) :
      ExtendedMantissa.shiftRightOne ⟨2 * n, false, false⟩ = ⟨n, false, false⟩ := by
    simp [ExtendedMantissa.shiftRightOne]
  induction k generalizing m with
  | zero => simp [Nat.repeat]
  | succ k ih =>
    have hm : 2 ^ (k + 1) * m = 2 ^ k * (2 * m) := by ring
    rw [Nat.repeat, hm, ih, hone]

/-- A canonical number is at the spacing of its binade. -/
theorem targetExponent_of_isCanonical {m : Nat} {e : Int} (hm : 0 < m) (h : IsCanonical m e) :
    Format.targetExponent .binary64 (totalExponent m e) = e := by
  have hmax : (m.log2 : Int) ≤ 52 := by
    have hlt := (Nat.log2_lt hm.ne').mpr h.mantissa_lt
    omega
  have hmin : ((Format.minExponent .binary64 : Int)) = -1074 := by decide
  have hbits : ((Format.mantissaBits .binary64 : Nat) : Int) = 53 := by decide
  rw [Format.targetExponent, totalExponent, hmin, hbits]
  rcases h.leading with hleast | hleading
  · omega
  · have hlog : 52 ≤ m.log2 := (Nat.le_log2 hm.ne').mpr hleading
    have hge := h.exponent_ge
    omega

/-- A canonical number is found again after a shift. -/
theorem shiftToTargetExponent_shifted {m k : Nat} {e : Int} (hm : 0 < m) (h : IsCanonical m e) :
    shiftToTargetExponent .binary64 (2 ^ k * m) (e - k) .exact = (⟨m, false, false⟩, e) := by
  have htotal : totalExponent (2 ^ k * m) (e - k) = totalExponent m e := by
    rw [totalExponent, totalExponent, log2_two_pow_mul hm]
    push_cast
    ring
  have hk : (e - (e - k)).toNat = k := by omega
  rw [shiftToTargetExponent, htotal, targetExponent_of_isCanonical hm h, shiftToExponent]
  simp only [hk, ExtendedMantissa.ofMantissaAndAccuracy, shiftRight_shifted]
  simp

/-- A canonical number is rounded to itself, also after a shift. -/
theorem roundWithAccuracy_shifted {s : Sign} {m k : Nat} {e : Int} (hm : 0 < m)
    (h : IsCanonical m e) :
    roundWithAccuracy .binary64 s (2 ^ k * m) (e - k) .exact = .finite s m e hm := by
  have hsecond := shiftToTargetExponent_shifted (k := 0) hm h
  rw [pow_zero, one_mul, Nat.cast_zero, sub_zero] at hsecond
  rw [roundWithAccuracy, shiftToTargetExponent_shifted hm h]
  dsimp only
  have hround : (⟨m, false, false⟩ : ExtendedMantissa).roundedMantissa = m := rfl
  rw [hround, hsecond]
  exact dif_neg hm.ne'

/-- What is unpacked is packed again as it was. -/
theorem ofModel_pack_unpack (x : Float) :
    Float.ofModel (Float.Model.pack x.toModel.unpack) = x := by
  obtain ⟨⟨bits, hvalid⟩⟩ := x
  have hpacked : UnpackedFloat.pack .binary64 (UnpackedFloat.unpack .binary64 bits.toBitVec) =
      bits.toBitVec := pack_unpack_of_valid hvalid
  congr 1
  unfold Float.Model.pack Float.Model.unpack
  congr 1
  exact UInt64.toBitVec_inj.mp hpacked

/-- One times a finite double is that double. -/
theorem one_mul_of_isFinite (hx : x.isFinite = true) : 1.0 * x = x := by
  have hunpack : x.toModel.unpack.isFinite = true := hx
  have hone : (1.0 : Float).toModel.unpack = .finite .positive (2 ^ 52) (-52) (by decide) := rfl
  have hmul : UnpackedFloat.mul .binary64 (1.0 : Float).toModel.unpack x.toModel.unpack =
      x.toModel.unpack := by
    rw [hone]
    cases hvalue : x.toModel.unpack with
    | notANumber => rfl
    | infinity s => rw [hvalue] at hunpack; cases hunpack
    | zero s => cases s <;> rfl
    | finite s m e hm =>
      have hsign : Sign.positive * s = s := by cases s <;> rfl
      show roundWithAccuracy .binary64 (Sign.positive * s) (2 ^ 52 * m) (-52 + e) .exact = _
      have hround := roundWithAccuracy_shifted (s := s) (k := 52) hm
        (isFormat_of_unpack hvalue).isCanonical
      rw [hsign, Int.add_comm, ← hround]
      rfl
  show Float.ofModel (Float.Model.pack (UnpackedFloat.mul .binary64 (1.0 : Float).toModel.unpack
    x.toModel.unpack)) = x
  rw [hmul, ofModel_pack_unpack]

/-! ## Signs -/

/-- A number or infinity with the given sign. -/
inductive HasSign (s : Sign) : UnpackedFloat → Prop where
  | infinity : HasSign s (.infinity s)
  | zero : HasSign s (.zero s)
  | finite {m : Nat} {e : Int} {hm : 0 < m} : HasSign s (.finite s m e hm)

/-- The sign field holds the highest bit. -/
theorem toNat_unpackSign (v : BitVec 64) :
    (@unpackSign .binary64 v).toNat = v.toNat / 2 ^ 63 % 2 := by
  simp [unpackSign, BitVec.extractLsb, BitVec.extractLsb'_toNat, Nat.shiftRight_eq_div_pow]

/-- Packing keeps the sign. -/
theorem HasSign.unpackSign_pack {s : Sign} {u : UnpackedFloat} (h : HasSign s u) :
    @unpackSign .binary64 (UnpackedFloat.pack .binary64 u) = s.toBitVec := by
  cases h with
  | infinity => exact unpackSign_packComponents s _ _
  | zero => exact unpackSign_packComponents s _ _
  | finite =>
    unfold UnpackedFloat.pack
    dsimp only
    split
    · exact unpackSign_packComponents s _ _
    · split <;> exact unpackSign_packComponents s _ _

/-- What has a sign is a number. -/
theorem HasSign.isNaN_pack {s : Sign} {u : UnpackedFloat} (h : HasSign s u) :
    (Float.ofModel (Float.Model.pack u)).isNaN = false := by
  rw [Bool.eq_false_iff]
  intro hnan
  have hpacked : UnpackedFloat.pack .binary64 u = packedNaN .binary64 :=
    (isNaN_unpack_iff_of_valid valid_pack).mp hnan
  have hexponent := congrArg (@unpackExponent .binary64) hpacked
  have hmantissa := congrArg (@unpackMantissa .binary64) hpacked
  rw [packedNaN, unpackExponent_packComponents] at hexponent
  rw [packedNaN, unpackMantissa_packComponents] at hmantissa
  cases h with
  | infinity =>
    rw [UnpackedFloat.pack, packedInfinity, unpackMantissa_packComponents] at hmantissa
    exact absurd hmantissa (by decide)
  | zero =>
    rw [UnpackedFloat.pack, packedZero, unpackExponent_packComponents] at hexponent
    exact absurd hexponent (by decide)
  | @finite m e hm =>
    unfold UnpackedFloat.pack at hmantissa hexponent
    dsimp only at hmantissa hexponent
    split at hexponent
    · next hlarge =>
      rw [if_pos hlarge, packedInfinity, unpackMantissa_packComponents] at hmantissa
      exact absurd hmantissa (by decide)
    · next hsmall =>
      split at hexponent
      · rw [unpackExponent_packComponents] at hexponent
        have hfield := congrArg BitVec.toNat hexponent
        rw [BitVec.toNat_ofNat] at hfield
        have hones : (-1#11).toNat = 2047 := by decide
        rw [hones, Nat.mod_eq_of_lt (by omega)] at hfield
        omega
      · rw [unpackExponent_packComponents] at hexponent
        exact absurd hexponent (by decide)

/-- A double that is a number has the sign of its pattern. -/
theorem hasSign_unpack (hx : x.isNaN = false) :
    HasSign (Sign.ofBitVec (@unpackSign .binary64 x.toBits.toBitVec)) x.toModel.unpack := by
  have hnumber : (UnpackedFloat.unpack .binary64 x.toBits.toBitVec).isNaN = false := hx
  show HasSign _ (UnpackedFloat.unpack .binary64 x.toBits.toBitVec)
  unfold UnpackedFloat.unpack at hnumber ⊢
  dsimp only at hnumber ⊢
  split at hnumber
  · next hspecial =>
    split at hnumber
    · next hzero =>
      rw [if_pos hspecial, if_pos hzero]
      exact .infinity
    · cases hnumber
  · next hspecial =>
    rw [if_neg hspecial]
    split
    · split
      · exact .zero
      · exact .finite
    · exact .finite

/-- There is one sign at the most. -/
theorem HasSign.unique {s s' : Sign} {u : UnpackedFloat} (h : HasSign s u) (h' : HasSign s' u) :
    s = s' := by
  cases h <;> cases h' <;> rfl

/-- The sign that is shown of a double that is a number is that of its pattern. -/
theorem isNegative_ofFloat (hx : x.isNaN = false) {s : Sign}
    (hs : HasSign s x.toModel.unpack) : (ofFloat x).isNegative = true ↔ s = .negative := by
  obtain rfl := (hasSign_unpack hx).unique hs
  have hexponent := toNat_unpackExponent x.toBits.toBitVec
  have hmantissa := toNat_unpackMantissa x.toBits.toBitVec
  have hfield := toNat_unpackSign x.toBits.toBitVec
  have hsign : x.toBits.toNat / 2 ^ 63 % 2 = 1 ↔
      Sign.ofBitVec (@unpackSign .binary64 x.toBits.toBitVec) = .negative := by
    have hbits : x.toBits.toNat = x.toBits.toBitVec.toNat := rfl
    rw [hbits, ← hfield, Sign.ofBitVec]
    split
    · next hzero => simp [hzero]
    · next hone =>
      have hne : (@unpackSign .binary64 x.toBits.toBitVec).toNat ≠ 0 := fun h =>
        hone (BitVec.eq_of_toNat_eq h)
      simp
      omega
  rw [← hsign]
  unfold ofFloat ofBits
  simp only [Nat.pow_eq]
  split
  · next hspecial =>
    split
    · exact decide_eq_true_iff
    · next hnonzero =>
      have hnan : (UnpackedFloat.unpack .binary64 x.toBits.toBitVec).isNaN = true := by
        have hones : @unpackExponent .binary64 x.toBits.toBitVec = -1#11 :=
          BitVec.eq_of_toNat_eq (hexponent.trans hspecial)
        have hfraction : @unpackMantissa .binary64 x.toBits.toBitVec ≠ 0#52 := fun h =>
          hnonzero (hmantissa.symm.trans (congrArg BitVec.toNat h))
        unfold UnpackedFloat.unpack
        dsimp only
        rw [if_pos hones, if_neg hfraction]
        rfl
      cases hx.symm.trans hnan
  · split <;> exact decide_eq_true_iff

/-- Rounding keeps the sign. -/
theorem hasSign_roundWithAccuracy (s : Sign) (m : Nat) (e : Int) (accuracy : Accuracy) :
    HasSign s (roundWithAccuracy .binary64 s m e accuracy) := by
  unfold roundWithAccuracy
  dsimp only
  split
  · exact .zero
  · exact .finite

/-- A finite double above zero is unpacked as a number with the positive sign. -/
theorem exists_unpack_of_pos (hfinite : x.isFinite = true) (hpos : 0.0 < x) :
    ∃ m e hm, x.toModel.unpack = .finite .positive m e hm := by
  have hunpack : x.toModel.unpack.isFinite = true := hfinite
  have hlt : (UnpackedFloat.lt (.zero .positive) x.toModel.unpack) = true :=
    of_decide_eq_true hpos
  cases hvalue : x.toModel.unpack with
  | notANumber => rw [hvalue] at hunpack; cases hunpack
  | infinity s => rw [hvalue] at hunpack; cases hunpack
  | zero s => rw [hvalue] at hlt; cases hlt
  | finite s m e hm =>
    cases s with
    | positive => exact ⟨m, e, hm, rfl⟩
    | negative => rw [hvalue] at hlt; cases hlt

/-- A quotient by a number with the positive sign has the sign of the dividend. -/
theorem HasSign.div {s : Sign} {u : UnpackedFloat} (hu : HasSign s u) {m : Nat} {e : Int}
    (hm : 0 < m) : HasSign s (UnpackedFloat.div .binary64 u (.finite .positive m e hm)) := by
  have hsign : s / Sign.positive = s := by cases s <;> rfl
  cases hu with
  | infinity =>
    rw [UnpackedFloat.div, hsign]
    exact .infinity
  | zero =>
    rw [UnpackedFloat.div, hsign]
    exact .zero
  | finite =>
    rw [UnpackedFloat.div, hsign]
    exact hasSign_roundWithAccuracy _ _ _ _

/-- A double divided by a finite one above zero is undefined just when it is so itself, and it is
shown with its own sign. -/
theorem div_pos (hfinite : y.isFinite = true) (hpos : 0.0 < y) :
    (x / y).isNaN = x.isNaN ∧ (ofFloat (x / y)).isNegative = (ofFloat x).isNegative := by
  cases hx : x.isNaN with
  | true =>
    have hquotient : (x / y).isNaN = true := isNaN_div (.inl hx)
    rw [ofFloat_of_isNaN hquotient, ofFloat_of_isNaN hx]
    exact ⟨hquotient, rfl⟩
  | false =>
    obtain ⟨m, e, hm, hy⟩ := exists_unpack_of_pos hfinite hpos
    have hs := hasSign_unpack hx
    generalize Sign.ofBitVec (@unpackSign .binary64 x.toBits.toBitVec) = s at hs
    have hdiv : HasSign s (UnpackedFloat.div .binary64 x.toModel.unpack y.toModel.unpack) := by
      rw [hy]
      exact hs.div hm
    have hquotient : (x / y).isNaN = false := hdiv.isNaN_pack
    have hfield : @unpackSign .binary64 (x / y).toBits.toBitVec = s.toBitVec :=
      hdiv.unpackSign_pack
    have hs' := hasSign_unpack hquotient
    rw [hfield, Sign.ofBitVec_toBitVec] at hs'
    exact ⟨hquotient, Bool.eq_iff_iff.mpr
      ((isNegative_ofFloat hquotient hs').trans (isNegative_ofFloat hx hs).symm)⟩

/-- A finite double is above zero, or it is at most zero. -/
theorem pos_or_nonpos (hx : x.isFinite = true) : 0.0 < x ∨ x ≤ 0.0 := by
  have hunpack : x.toModel.unpack.isFinite = true := hx
  have hcompare : (UnpackedFloat.lt (.zero .positive) x.toModel.unpack) = true ∨
      (UnpackedFloat.le x.toModel.unpack (.zero .positive)) = true := by
    cases hvalue : x.toModel.unpack with
    | notANumber => rw [hvalue] at hunpack; cases hunpack
    | infinity s => rw [hvalue] at hunpack; cases hunpack
    | zero s => exact .inr rfl
    | finite s m e hm =>
      cases s with
      | positive => exact .inl rfl
      | negative => exact .inr rfl
  exact hcompare.imp decide_eq_true decide_eq_true

end Reckoner.Binary64
