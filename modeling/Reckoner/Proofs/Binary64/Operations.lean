import Reckoner.Proofs.Binary64.Packed

/-!
# What operations on doubles compute

The sum, the difference, the product and the quotient of two finite doubles are the exact ones,
rounded once. A natural number becomes the double that it is rounded to, and the operations that
have nothing to round are exact: the other sign, the magnitude, and the nearest integer.
-/

namespace Reckoner.Binary64

open Float.Model Float.Model.UnpackedFloat

variable {x y : Float} {a b : UnpackedFloat}

/-! ## Signs of results -/

theorem signFactor_neg (s : Sign) : signFactor (-s) = -signFactor s := by
  cases s <;> decide +kernel

theorem signFactor_mul (s s' : Sign) : signFactor (s * s') = signFactor s * signFactor s' := by
  cases s <;> cases s' <;> decide +kernel

theorem signFactor_div (s s' : Sign) : signFactor (s / s') = signFactor s / signFactor s' := by
  cases s <;> cases s' <;> decide +kernel

/-- An integer with a sign. -/
theorem intCast_apply (s : Sign) (n : ℤ) : ((s.apply n : ℤ) : ℚ) = signFactor s * n := by
  cases s <;> simp [signFactor, Sign.apply]

/-! ## Numbers that are not packed -/

/-- A finite double is unpacked as a canonical number. -/
theorem isNumber_unpack (hx : x.isFinite = true) : IsNumber x.toModel.unpack :=
  ⟨hx, fun _ _ _ _ hvalue => (isFormat_of_unpack hvalue).isCanonical⟩

/-- A canonical number is its own rounded number. -/
theorem IsNumber.rounds (h : IsNumber a) : Rounds (amount a) a := by
  refine ⟨h, ?_⟩
  cases a with
  | notANumber => cases h.isFinite
  | infinity s => cases h.isFinite
  | zero s => rw [amount_zero, rounded_zero]
  | finite s m e hm =>
    obtain ⟨hmax, hmin, -⟩ := h.canonical s m e hm rfl
    have hshort : IsShort (magnitude m e) :=
      ⟨m, e, by rw [Nat.abs_cast]; exact_mod_cast hmax.le, hmin, rfl⟩
    rw [amount, rounded_signFactor, hshort.rounded_eq]

/-- A number with its mantissa shifted to a smaller exponent. -/
theorem amount_shifted (s : Sign) {m : Nat} {e least : ℤ} (hm : 0 < m) (hleast : least ≤ e) :
    amount (.finite s m e hm) =
      (s.apply ((m <<< (e - least).toNat : ℕ) : ℤ) : ℤ) * 2 ^ least := by
  have hexponent : e - ((e - least).toNat : ℤ) = least := by omega
  have hshift := magnitude_shiftLeft m (e - least).toNat e
  rw [hexponent] at hshift
  rw [amount, ← hshift, magnitude, intCast_apply, Int.cast_natCast, mul_assoc]

/-- The sum of two canonical numbers is rounded. -/
theorem IsNumber.rounds_add (ha : IsNumber a) (hb : IsNumber b) :
    Rounds (amount a + amount b) (UnpackedFloat.add .binary64 a b) := by
  cases a with
  | notANumber => cases ha.isFinite
  | infinity s => cases ha.isFinite
  | zero s =>
    rw [amount_zero, zero_add]
    cases b with
    | notANumber => cases hb.isFinite
    | infinity s' => cases hb.isFinite
    | zero s' =>
      show Rounds _ (if s == s' then .zero s else .zero .positive)
      split
      · exact (isNumber_zero s).rounds
      · exact (isNumber_zero .positive).rounds
    | finite s' m' e' hm' => exact hb.rounds
  | finite s m e hm =>
    cases b with
    | notANumber => cases hb.isFinite
    | infinity s' => cases hb.isFinite
    | zero s' =>
      rw [amount_zero, add_zero]
      exact ha.rounds
    | finite s' m' e' hm' =>
      rw [amount_shifted s hm (min_le_left e e'), amount_shifted s' hm' (min_le_right e e'),
        ← add_mul, ← Int.cast_add]
      exact rounds_normalize _ _ .positive

/-- The other sign of a canonical number. -/
theorem IsNumber.neg (h : IsNumber a) : IsNumber a.neg ∧ amount a.neg = -amount a := by
  cases a with
  | notANumber => cases h.isFinite
  | infinity s => cases h.isFinite
  | zero s => exact ⟨isNumber_zero _, neg_zero.symm⟩
  | finite s m e hm =>
    refine ⟨isNumber_finite (h.canonical s m e hm rfl), ?_⟩
    rw [UnpackedFloat.neg, amount, amount, signFactor_neg, neg_mul]

/-- The magnitude of a canonical number. -/
theorem IsNumber.abs (h : IsNumber a) : IsNumber a.abs ∧ amount a.abs = |amount a| := by
  cases a with
  | notANumber => cases h.isFinite
  | infinity s => cases h.isFinite
  | zero s => exact ⟨isNumber_zero _, abs_zero.symm⟩
  | finite s m e hm =>
    refine ⟨isNumber_finite (h.canonical s m e hm rfl), ?_⟩
    rw [amount, abs_signFactor_mul s (magnitude_pos hm e).le, UnpackedFloat.abs, amount, signFactor,
      one_mul]

/-- A difference is a sum with the other sign. -/
theorem unpackedSub_eq (a b : UnpackedFloat) :
    UnpackedFloat.sub .binary64 a b = UnpackedFloat.add .binary64 a b.neg := by
  cases a <;> cases b <;> try rfl
  rename_i s m e hm s' m' e' hm'
  have hterm (n : ℤ) : (-s').apply n = -s'.apply n := by
    cases s' with
    | negative => exact (neg_neg n).symm
    | positive => rfl
  unfold UnpackedFloat.sub UnpackedFloat.add UnpackedFloat.neg
  dsimp only
  rw [hterm]
  rfl

/-- The two signs of a product may trade places. -/
theorem signMul_comm (s s' : Sign) : s * s' = s' * s := by
  cases s <;> cases s' <;> rfl

/-- The sum of unpacked numbers is the same in either order. -/
theorem unpackedAdd_comm (a b : UnpackedFloat) :
    UnpackedFloat.add .binary64 a b = UnpackedFloat.add .binary64 b a := by
  cases a <;> cases b <;> try rfl
  case infinity.infinity s s' => cases s <;> cases s' <;> rfl
  case zero.zero s s' => cases s <;> cases s' <;> rfl
  case finite.finite s m e hm s' m' e' hm' =>
    unfold UnpackedFloat.add
    dsimp only
    rw [Int.add_comm, min_comm e e']

/-- The product of unpacked numbers is the same in either order. -/
theorem unpackedMul_comm (a b : UnpackedFloat) :
    UnpackedFloat.mul .binary64 a b = UnpackedFloat.mul .binary64 b a := by
  cases a with
  | notANumber => cases b <;> rfl
  | infinity s =>
    cases b with
    | notANumber | zero => rfl
    | infinity s' | finite s' => exact congrArg UnpackedFloat.infinity (signMul_comm s s')
  | zero s =>
    cases b with
    | notANumber | infinity => rfl
    | zero s' | finite s' => exact congrArg UnpackedFloat.zero (signMul_comm s s')
  | finite s m e hm =>
    cases b with
    | notANumber => rfl
    | infinity s' => exact congrArg UnpackedFloat.infinity (signMul_comm s s')
    | zero s' => exact congrArg UnpackedFloat.zero (signMul_comm s s')
    | finite s' m' e' hm' =>
      show roundWithAccuracy _ (s * s') (m * m') (e + e') _ = _
      rw [signMul_comm, Nat.mul_comm, Int.add_comm]
      rfl

/-- The product of two canonical numbers is rounded. -/
theorem IsNumber.rounds_mul (ha : IsNumber a) (hb : IsNumber b) :
    Rounds (amount a * amount b) (UnpackedFloat.mul .binary64 a b) := by
  cases a with
  | notANumber => cases ha.isFinite
  | infinity s => cases ha.isFinite
  | zero s =>
    rw [amount_zero, zero_mul]
    cases b with
    | notANumber => cases hb.isFinite
    | infinity s' => cases hb.isFinite
    | zero s' => exact (isNumber_zero _).rounds
    | finite s' m' e' hm' => exact (isNumber_zero _).rounds
  | finite s m e hm =>
    cases b with
    | notANumber => cases hb.isFinite
    | infinity s' => cases hb.isFinite
    | zero s' =>
      rw [amount_zero, mul_zero]
      exact (isNumber_zero _).rounds
    | finite s' m' e' hm' =>
      obtain ⟨-, hmin, hlead⟩ := ha.canonical s m e hm rfl
      obtain ⟨-, hmin', hlead'⟩ := hb.canonical s' m' e' hm' rfl
      have hproduct : magnitude (m * m') (e + e') = magnitude m e * magnitude m' e' := by
        rw [magnitude, magnitude, magnitude, zpow_add₀ two_ne_zero]
        push_cast
        ring
      have hpos := magnitude_pos (Nat.mul_pos hm hm') (e + e')
      -- Two mantissas without their leading bits have the least exponent both.
      have hspacing : e + e' ≤ spacing (magnitude (m * m') (e + e')) := by
        refine le_spacing ?_
        rw [abs_of_pos hpos]
        by_cases hsmall : e + e' ≤ -1074
        · exact .inl hsmall
        · have hlarge : 2 ^ 52 ≤ m * m' := by
            rcases hlead with hleast | hlead
            · rcases hlead' with hleast' | hlead'
              · omega
              · exact hlead'.trans (Nat.le_mul_of_pos_left m' hm)
            · exact hlead.trans (Nat.le_mul_of_pos_right m hm')
          have hcast : (2 : ℚ) ^ 52 ≤ ((m * m' : ℕ) : ℚ) := by exact_mod_cast hlarge
          exact .inr (mul_le_mul_of_nonneg_right hcast (by positivity))
      rw [amount, amount, mul_mul_mul_comm, ← hproduct, ← signFactor_mul]
      exact rounds_roundWithAccuracy _ hpos (standsFor_magnitude _ _) hspacing

/-- The integer quotient and the accuracy of its remainder stand for the quotient. -/
theorem standsFor_quotient (num : Nat) {den : Nat} (hden : 0 < den) :
    StandsFor (.ofMantissaAndAccuracy (num / den) (accuracyOfFraction (num % den) den))
      ((num : ℚ) / den) := by
  have hden' : (0 : ℚ) < den := Nat.cast_pos.mpr hden
  have hsplit : (num : ℚ) / den - (num / den : ℕ) = ((num % den : ℕ) : ℚ) / den := by
    have h : (den : ℚ) * (num / den : ℕ) + (num % den : ℕ) = num := by
      exact_mod_cast Nat.div_add_mod num den
    rw [← h]
    field_simp
    ring
  have hless : ((num % den : ℕ) : ℚ) < den := by exact_mod_cast Nat.mod_lt num hden
  unfold accuracyOfFraction
  generalize num % den = rest at *
  have hhalf : ((rest : ℚ) / den < 1 / 2 ↔ 2 * rest < den) ∧
      (1 / 2 < (rest : ℚ) / den ↔ den < 2 * rest) := by
    rw [div_lt_div_iff₀ hden' two_pos, div_lt_div_iff₀ two_pos hden']
    constructor <;> norm_cast <;> omega
  unfold StandsFor
  split
  · next hzero =>
    rw [hzero, Nat.cast_zero, zero_div] at hsplit
    show Residue false false ((num : ℚ) / den - (num / den : ℕ))
    rw [hsplit]
    exact .none
  · next hne =>
    have hpos : (0 : ℚ) < rest := Nat.cast_pos.mpr (Nat.pos_of_ne_zero hne)
    have hrest : 0 < (rest : ℚ) / den := by positivity
    rcases lt_trichotomy (2 * rest) den with hlt | heq | hgt
    · rw [compare_lt_iff_lt.mpr hlt]
      show Residue false true ((num : ℚ) / den - (num / den : ℕ))
      rw [hsplit]
      exact .belowHalf hrest (hhalf.1.mpr hlt)
    · rw [compare_eq_iff_eq.mpr heq]
      show Residue true false ((num : ℚ) / den - (num / den : ℕ))
      have hmiddle : (rest : ℚ) / den = 1 / 2 := by
        rw [div_eq_div_iff hden'.ne' two_ne_zero]
        exact_mod_cast (by omega : rest * 2 = 1 * den)
      rw [hsplit, hmiddle]
      exact .half
    · rw [compare_gt_iff_gt.mpr hgt]
      show Residue true true ((num : ℚ) / den - (num / den : ℕ))
      rw [hsplit]
      exact .aboveHalf (hhalf.2.mpr hgt) ((div_lt_one hden').mpr hless)

/-- The quotient of two magnitudes is not below the power of two between their first bits. -/
theorem zpow_le_quotient {m m' : Nat} (hm : 0 < m) (hm' : 0 < m') (e e' : ℤ) :
    (2 : ℚ) ^ (totalExponent m e - totalExponent m' e' - 1) ≤ magnitude m e / magnitude m' e' := by
  obtain ⟨hlow, -⟩ := two_zpow_log2 hm
  obtain ⟨-, hhigh⟩ := two_zpow_log2 hm'
  rw [le_div_iff₀ (magnitude_pos hm' e')]
  have hexponent : totalExponent m e - totalExponent m' e' - 1 + ((m'.log2 : ℤ) + 1 + e') =
      (m.log2 : ℤ) + e := by
    rw [totalExponent, totalExponent]
    ring
  calc (2 : ℚ) ^ (totalExponent m e - totalExponent m' e' - 1) * magnitude m' e'
      ≤ 2 ^ (totalExponent m e - totalExponent m' e' - 1) * (2 ^ ((m'.log2 : ℤ) + 1) * 2 ^ e') := by
        rw [magnitude]
        gcongr
    _ = 2 ^ (m.log2 : ℤ) * 2 ^ e := by
        rw [← zpow_add₀ two_ne_zero, ← zpow_add₀ two_ne_zero, hexponent, zpow_add₀ two_ne_zero]
    _ ≤ magnitude m e := by
        rw [magnitude]
        gcongr

/-- The quotient of two canonical numbers is rounded, unless the divisor is zero. -/
theorem IsNumber.rounds_div (ha : IsNumber a) (hb : IsNumber b) (hzero : amount b ≠ 0) :
    Rounds (amount a / amount b) (UnpackedFloat.div .binary64 a b) := by
  cases b with
  | notANumber => cases hb.isFinite
  | infinity s' => cases hb.isFinite
  | zero s' => exact absurd (amount_zero s') hzero
  | finite s' m' e' hm' =>
    cases a with
    | notANumber => cases ha.isFinite
    | infinity s => cases ha.isFinite
    | zero s =>
      rw [amount_zero, zero_div]
      exact (isNumber_zero _).rounds
    | finite s m e hm =>
      have hdividend := magnitude_pos hm e
      have hdivisor := magnitude_pos hm' e'
      have hpos : 0 < magnitude m e / magnitude m' e' := by positivity
      have hbinade := zpow_le_quotient hm hm' e e'
      rw [amount, amount, mul_div_mul_comm, ← signFactor_div]
      unfold UnpackedFloat.div divCore
      dsimp only
      rw [targetExponent_eq]
      generalize totalExponent m e - totalExponent m' e' = total at hbinade ⊢
      generalize htarget : min (e - e') (max (total - 53) (-1074)) = target
      have hshifted : magnitude m e / magnitude m' e' / 2 ^ target =
          ((m <<< (e - e' - target).toNat : ℕ) : ℚ) / m' := by
        have hexponent : e = ((e - e' - target).toNat : ℤ) + e' + target := by omega
        rw [Nat.shiftLeft_eq, magnitude, magnitude]
        nth_rewrite 1 [hexponent]
        rw [zpow_add₀ two_ne_zero, zpow_add₀ two_ne_zero, zpow_natCast]
        push_cast
        field_simp
      refine rounds_roundWithAccuracy _ hpos ?_ (le_spacing ?_)
      · rw [hshifted]
        exact standsFor_quotient _ hm'
      · by_cases hsmall : target ≤ -1074
        · exact .inl hsmall
        · refine .inr ?_
          rw [abs_of_pos hpos, ← zpow_natCast, ← zpow_add₀ two_ne_zero]
          refine le_trans (zpow_le_zpow_right₀ one_le_two ?_) hbinade
          push_cast
          omega

/-! ## Operations on doubles -/

/-- The sum of two finite doubles. -/
theorem isRounded_add (hx : x.isFinite = true) (hy : y.isFinite = true) :
    IsRounded (toRat x + toRat y) (x + y) := by
  rw [toRat_eq, toRat_eq]
  exact ((isNumber_unpack hx).rounds_add (isNumber_unpack hy)).pack

/-- The difference of two finite doubles. -/
theorem isRounded_sub (hx : x.isFinite = true) (hy : y.isFinite = true) :
    IsRounded (toRat x - toRat y) (x - y) := by
  obtain ⟨hneg, hamount⟩ := (isNumber_unpack hy).neg
  have hrounds := ((isNumber_unpack hx).rounds_add hneg).pack
  rw [← unpackedSub_eq, hamount, ← toRat_eq, ← toRat_eq, ← sub_eq_add_neg] at hrounds
  exact hrounds

/-- The product of two finite doubles. -/
theorem isRounded_mul (hx : x.isFinite = true) (hy : y.isFinite = true) :
    IsRounded (toRat x * toRat y) (x * y) := by
  rw [toRat_eq, toRat_eq]
  exact ((isNumber_unpack hx).rounds_mul (isNumber_unpack hy)).pack

/-- The quotient of two finite doubles. -/
theorem isRounded_div (hx : x.isFinite = true) (hy : y.isFinite = true) (hzero : toRat y ≠ 0) :
    IsRounded (toRat x / toRat y) (x / y) := by
  rw [toRat_eq] at hzero
  rw [toRat_eq, toRat_eq]
  exact ((isNumber_unpack hx).rounds_div (isNumber_unpack hy) hzero).pack

/-- The summands of a sum may trade places, also where they are not finite. -/
protected theorem add_comm (x y : Float) : x + y = y + x :=
  congrArg (fun u => Float.ofModel (Float.Model.pack u))
    (unpackedAdd_comm x.toModel.unpack y.toModel.unpack)

/-- The factors of a product may trade places, also where they are not finite. -/
protected theorem mul_comm (x y : Float) : x * y = y * x :=
  congrArg (fun u => Float.ofModel (Float.Model.pack u))
    (unpackedMul_comm x.toModel.unpack y.toModel.unpack)

/-- The other sign of a finite double. -/
theorem toRat_neg (hx : x.isFinite = true) : (-x).isFinite = true ∧ toRat (-x) = -toRat x := by
  obtain ⟨hneg, hamount⟩ := (isNumber_unpack hx).neg
  have hrounded : IsRounded (amount x.toModel.unpack.neg) (-x) := hneg.rounds.pack
  rw [hamount, ← toRat_eq] at hrounded
  refine hrounded.of_isShort (isShort_toRat x).neg ?_
  rw [abs_neg]
  exact abs_toRat_lt x

/-- The magnitude of a finite double. -/
theorem toRat_abs (hx : x.isFinite = true) : x.abs.isFinite = true ∧ toRat x.abs = |toRat x| := by
  obtain ⟨habs, hamount⟩ := (isNumber_unpack hx).abs
  have hrounded : IsRounded (amount x.toModel.unpack.abs) x.abs := habs.rounds.pack
  rw [hamount, ← toRat_eq] at hrounded
  refine hrounded.of_isShort (isShort_toRat x).abs ?_
  rw [abs_abs]
  exact abs_toRat_lt x

/-! ## Operands of finite results -/

/-- What is packed finite was finite before. -/
theorem isFinite_of_isFinite_pack
    (h : (Float.ofModel (Float.Model.pack a)).isFinite = true) : a.isFinite = true := by
  cases a with
  | notANumber => rw [isFinite_of_isNaN isNaN_pack_notANumber] at h; cases h
  | infinity s => cases s <;> cases h
  | zero s => rfl
  | finite s m e hm => rfl

/-- The summands of a finite sum are finite. -/
theorem isFinite_of_isFinite_add (h : (x + y).isFinite = true) :
    x.isFinite = true ∧ y.isFinite = true := by
  have hsum : (UnpackedFloat.add .binary64 x.toModel.unpack y.toModel.unpack).isFinite = true :=
    isFinite_of_isFinite_pack h
  show x.toModel.unpack.isFinite = true ∧ y.toModel.unpack.isFinite = true
  generalize x.toModel.unpack = a at *
  generalize y.toModel.unpack = b at *
  cases a with
  | notANumber => cases hsum
  | infinity s =>
    cases b with
    | infinity s' => cases s <;> cases s' <;> cases hsum
    | _ => cases hsum
  | zero s =>
    cases b with
    | notANumber => cases hsum
    | infinity s' => cases hsum
    | _ => exact ⟨rfl, rfl⟩
  | finite s m e hm =>
    cases b with
    | notANumber => cases hsum
    | infinity s' => cases hsum
    | _ => exact ⟨rfl, rfl⟩

/-- The factors of a finite product are finite. -/
theorem isFinite_of_isFinite_mul (h : (x * y).isFinite = true) :
    x.isFinite = true ∧ y.isFinite = true := by
  have hproduct :
      (UnpackedFloat.mul .binary64 x.toModel.unpack y.toModel.unpack).isFinite = true :=
    isFinite_of_isFinite_pack h
  show x.toModel.unpack.isFinite = true ∧ y.toModel.unpack.isFinite = true
  generalize x.toModel.unpack = a at *
  generalize y.toModel.unpack = b at *
  cases a with
  | notANumber => cases hproduct
  | infinity s => cases b <;> cases hproduct
  | zero s =>
    cases b with
    | notANumber => cases hproduct
    | infinity s' => cases hproduct
    | _ => exact ⟨rfl, rfl⟩
  | finite s m e hm =>
    cases b with
    | notANumber => cases hproduct
    | infinity s' => cases hproduct
    | _ => exact ⟨rfl, rfl⟩

/-- The dividend of a finite quotient is finite. -/
theorem isFinite_of_isFinite_div (h : (x / y).isFinite = true) : x.isFinite = true := by
  have hquotient :
      (UnpackedFloat.div .binary64 x.toModel.unpack y.toModel.unpack).isFinite = true :=
    isFinite_of_isFinite_pack h
  show x.toModel.unpack.isFinite = true
  generalize x.toModel.unpack = a at *
  generalize y.toModel.unpack = b at *
  cases a with
  | notANumber => cases hquotient
  | infinity s => cases b <;> cases hquotient
  | zero s => rfl
  | finite s m e hm => rfl

/-! ## Integers -/

/-- One is a double. -/
theorem ofFloat_one : ofFloat 1.0 = .finite false (2 ^ 52) (-52) := rfl

theorem isFinite_one : (1.0 : Float).isFinite = true := rfl

theorem toRat_one : toRat 1.0 = 1 := by
  rw [toRat, ofFloat_one, value, magnitude]
  norm_num

/-- A natural number becomes the double that it is rounded to. -/
theorem isRounded_ofNat (n : Nat) : IsRounded n (Float.ofNat n) := by
  show IsRounded n (Float.ofScientific n false 0)
  unfold Float.ofScientific
  split
  · next hsmall =>
    -- A short number is exact, and it is multiplied by one.
    have hbits : n < 2 ^ 53 := hsmall.1
    have hconverted : IsRounded n n.toUInt64.toFloat := by
      have hnat : n.toUInt64.toNat = n := Nat.mod_eq_of_lt (by omega)
      have hrounds := (rounds_normalize (n.toUInt64.toNat : ℤ) 0 .positive).pack
      rw [hnat, zpow_zero, mul_one, Int.cast_natCast] at hrounds
      show IsRounded n (Float.ofModel (Float.Model.pack (UnpackedFloat.normalize .binary64
        (n.toUInt64.toNat : ℤ) 0 .positive)))
      rw [hnat]
      exact hrounds
    have hshort : IsShort n := by
      have hcast := isShort_intCast (n := n) (by rw [Nat.abs_cast]; exact_mod_cast hbits.le)
      rwa [Int.cast_natCast] at hcast
    have hrange : |(n : ℚ)| < 2 ^ 1024 := by
      have hless : (n : ℚ) < 2 ^ 53 := by exact_mod_cast hbits
      rw [Nat.abs_cast]
      exact hless.trans (pow_lt_pow_right₀ one_lt_two (by norm_num))
    obtain ⟨hfinite, hvalue⟩ := hconverted.of_isShort hshort hrange
    have hproduct := isRounded_mul hfinite isFinite_one
    rw [hvalue, toRat_one, mul_one] at hproduct
    exact hproduct
  · next hlarge =>
    have hbits : 2 ^ 53 ≤ n := by omega
    have hn : 0 < n := by omega
    have hexact : IsRounded (signFactor .positive * magnitude (n <<< 53 * 1) (-53 + 0))
        (Float.ofModel (Float.Model.pack (UnpackedFloat.roundWithAccuracy .binary64 .positive
          (n <<< 53 * 1) (-53 + 0) .exact))) := by
      have hpos : 0 < magnitude (n <<< 53 * 1) (-53 + 0) :=
        magnitude_pos (by rw [mul_one, Nat.shiftLeft_eq]; positivity) _
      refine (rounds_roundWithAccuracy .positive hpos (standsFor_magnitude _ _) ?_).pack
      refine le_spacing (.inr ?_)
      have hcast : (2 : ℚ) ^ 52 ≤ ((n <<< 53 * 1 : ℕ) : ℚ) := by
        rw [mul_one, Nat.shiftLeft_eq]
        exact_mod_cast (by omega : 2 ^ 52 ≤ n * 2 ^ 53)
      rw [abs_of_pos hpos]
      exact mul_le_mul_of_nonneg_right hcast (by positivity)
    have hmagnitude : magnitude (n <<< 53 * 1) (-53 + 0) = n := by
      have h := magnitude_shiftLeft n 53 0
      rw [magnitude, magnitude, zpow_zero, mul_one] at h
      rw [magnitude, mul_one]
      exact h
    rw [signFactor, one_mul, hmagnitude] at hexact
    have hmodel : UnpackedFloat.ofScientific .binary64 n 0 =
        UnpackedFloat.roundWithAccuracy .binary64 .positive (n <<< 53 * 1) (-53 + 0) .exact := by
      have hlimit : ¬ (0 : ℤ) < -((2 ^ Format.exponentBits .binary64 : ℤ) + n.log2) := by
        have hpower : (2 : ℤ) ^ Format.exponentBits .binary64 = 2048 := rfl
        omega
      unfold UnpackedFloat.ofScientific
      rw [dif_neg hn.ne', if_neg (by decide), if_neg hlimit, if_pos le_rfl]
      rfl
    show IsRounded n (Float.ofModel (Float.Model.pack (UnpackedFloat.ofScientific .binary64 n 0)))
    rw [hmodel]
    exact hexact

/-- A natural number of at most 53 bits is a double. -/
theorem toRat_ofNat {n : Nat} (hn : n ≤ 2 ^ 53) :
    (Float.ofNat n).isFinite = true ∧ toRat (Float.ofNat n) = n := by
  have hbits : (n : ℚ) ≤ 2 ^ 53 := by exact_mod_cast hn
  have hshort := isShort_intCast (n := n) (by rw [Nat.abs_cast]; exact_mod_cast hn)
  rw [Int.cast_natCast] at hshort
  refine (isRounded_ofNat n).of_isShort hshort ?_
  rw [Nat.abs_cast]
  exact hbits.trans_lt (pow_lt_pow_right₀ one_lt_two (by norm_num))

/-- The whole part of a finite double is the integer below its magnitude. -/
theorem wholePart_eq (hx : x.isFinite = true) : ((ofFloat x).wholePart : ℤ) = ⌊|toRat x|⌋ := by
  obtain ⟨negative, m, e, hread⟩ := isFinite_iff.mp hx
  rw [abs_toRat_of_ofFloat hread, hread, Rat.floor_natCast_div_natCast]
  rfl

/-- The magnitude rounded to an integer is at most a half away. -/
theorem abs_magnitude_sub_roundedPart_le (negative : Bool) (m : Nat) (e : ℤ) :
    |magnitude m e - (Binary64.finite negative m e).roundedPart| ≤ 1 / 2 := by
  have hden : 0 < denominator e := denominator_pos e
  have hden' : (0 : ℚ) < denominator e := Nat.cast_pos.mpr hden
  rw [← numerator_div_denominator]
  show |_ - (((2 * numerator m e + denominator e) / (2 * denominator e) : ℕ) : ℚ)| ≤ _
  have hlow := Nat.div_mul_le_self (2 * numerator m e + denominator e) (2 * denominator e)
  have hhigh := Nat.lt_div_mul_add (a := 2 * numerator m e + denominator e)
    (show 0 < 2 * denominator e by omega)
  generalize (2 * numerator m e + denominator e) / (2 * denominator e) = n at *
  have hlow' : (n : ℚ) * (2 * denominator e) ≤ 2 * numerator m e + denominator e := by
    exact_mod_cast hlow
  have hhigh' : 2 * (numerator m e : ℚ) + denominator e <
      n * (2 * denominator e) + 2 * denominator e := by
    exact_mod_cast hhigh
  rw [abs_le]
  constructor
  · rw [le_sub_iff_add_le, le_div_iff₀ hden']
    linarith
  · rw [sub_le_iff_le_add, div_le_iff₀ hden']
    linarith

/-- The magnitude rounded to an integer is short: what has a fraction has few bits before the
point. -/
theorem isShort_roundedPart (negative : Bool) {m : Nat} {e : ℤ} (h : IsFormat m e) :
    IsShort (Binary64.finite negative m e).roundedPart ∧
      ((Binary64.finite negative m e).roundedPart : ℚ) < 2 ^ 1024 := by
  obtain ⟨hnear, -⟩ := abs_le.mp (abs_magnitude_sub_roundedPart_le negative m e)
  have hmax : (m : ℚ) < 2 ^ 53 := by exact_mod_cast h.mantissa_lt
  rcases le_or_gt 0 e with hwhole | hfraction
  · have hinteger : (Binary64.finite negative m e).roundedPart = m * 2 ^ e.toNat := by
      show (2 * (m * 2 ^ e.toNat) + 2 ^ (-e).toNat) / (2 * 2 ^ (-e).toNat) = _
      rw [show (-e).toNat = 0 by omega]
      omega
    have hvalue : ((Binary64.finite negative m e).roundedPart : ℚ) = magnitude m e := by
      rw [hinteger, magnitude, ← Int.toNat_of_nonneg hwhole]
      push_cast
      rfl
    rw [hvalue]
    refine ⟨⟨m, e, ?_, by omega, rfl⟩, h.isCanonical.magnitude_lt_iff.mpr h.exponent_le⟩
    rw [Nat.abs_cast]
    exact_mod_cast h.mantissa_lt.le
  · have hhalf : magnitude m e ≤ m / 2 := by
      have hpower : (2 : ℚ) ^ e ≤ 2 ^ (-1 : ℤ) := zpow_le_zpow_right₀ one_le_two (by omega)
      calc (m : ℚ) * 2 ^ e ≤ m * 2 ^ (-1 : ℤ) := by gcongr
        _ = m / 2 := by rw [zpow_neg_one, div_eq_mul_inv]
    generalize (Binary64.finite negative m e).roundedPart = n at *
    have hbits : (n : ℚ) ≤ 2 ^ 53 := by linarith
    have hshort := isShort_intCast (n := n) (by rw [Nat.abs_cast]; exact_mod_cast hbits)
    rw [Int.cast_natCast] at hshort
    exact ⟨hshort, hbits.trans_lt (pow_lt_pow_right₀ one_lt_two (by norm_num))⟩

/-- The nearest integer to a finite double is found without any error. -/
theorem toRat_roundAwayFromZero (hx : x.isFinite = true) :
    (roundAwayFromZero x).isFinite = true ∧
      ∃ n : ℤ, toRat (roundAwayFromZero x) = n ∧ |toRat x - n| ≤ 1 / 2 := by
  obtain ⟨negative, m, e, hread⟩ := isFinite_iff.mp hx
  have hnear := abs_magnitude_sub_roundedPart_le negative m e
  obtain ⟨hshort, hless⟩ := isShort_roundedPart negative (isFormat_of_ofFloat hread)
  have hrounded := isRounded_ofNat (Binary64.finite negative m e).roundedPart
  obtain ⟨hfinite, hvalue⟩ := hrounded.of_isShort hshort (by rwa [Nat.abs_cast])
  unfold roundAwayFromZero
  rw [toRat, toRat, hread]
  dsimp only
  generalize (Binary64.finite negative m e).roundedPart = n at *
  cases negative with
  | false =>
    refine ⟨hfinite, n, hvalue, ?_⟩
    show |1 * magnitude m e - ((n : ℤ) : ℚ)| ≤ 1 / 2
    rwa [one_mul, Int.cast_natCast]
  | true =>
    obtain ⟨hfinite', hvalue'⟩ := toRat_neg hfinite
    rw [hvalue] at hvalue'
    refine ⟨hfinite', -n, hvalue'.trans (Int.cast_neg _).symm, ?_⟩
    show |-1 * magnitude m e - ((-(n : ℤ) : ℤ) : ℚ)| ≤ 1 / 2
    rwa [neg_one_mul, Int.cast_neg, Int.cast_natCast, neg_sub_neg, abs_sub_comm]

end Reckoner.Binary64
