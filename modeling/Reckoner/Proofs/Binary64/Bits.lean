import Reckoner.Binary64
import Mathlib

/-!
# Bit patterns of doubles

The numbers without a sign are the bit patterns up to that of infinity. Each of these patterns is
kept by the passage to a double and back, and those below infinity are told apart by a mantissa and
an exponent. The sign, the exponent and the mantissa are read off the pattern twice: by
`Binary64.ofBits` and by the unpacking that the meaning of `Float` rests on.
-/

namespace Reckoner.Binary64

open Float.Model.UnpackedFloat

/-- The mantissa field holds the lowest 52 bits. -/
theorem toNat_unpackMantissa (v : BitVec 64) :
    (@unpackMantissa .binary64 v).toNat = v.toNat % 2 ^ 52 := by
  simp [unpackMantissa, BitVec.extractLsb, BitVec.extractLsb'_toNat]

/-- The exponent field holds the next 11 bits. -/
theorem toNat_unpackExponent (v : BitVec 64) :
    (@unpackExponent .binary64 v).toNat = v.toNat / 2 ^ 52 % 2 ^ 11 := by
  simp [unpackExponent, BitVec.extractLsb, BitVec.extractLsb'_toNat, Nat.shiftRight_eq_div_pow]

/-- The patterns up to that of infinity are those of numbers and of infinity. -/
theorem isNaNBits_eq_false {v : BitVec 64} (hv : v.toNat ≤ infinityBits) :
    @isNaNBits .binary64 v = false := by
  have hmantissa := toNat_unpackMantissa v
  have hexponent := toNat_unpackExponent v
  simp only [infinityBits, Nat.pow_eq] at hv
  refine decide_eq_false ?_
  rintro ⟨hones, hnonzero⟩
  have hbiased : (@unpackExponent .binary64 v).toNat = 2047 := congrArg BitVec.toNat hones
  have hzero : (@unpackMantissa .binary64 v).toNat = 0 := by omega
  exact hnonzero (BitVec.eq_of_toNat_eq hzero)

/-- What is no number has the pattern of no number. -/
theorem isNaNBits_of_isNaN {x : Float} (hx : x.isNaN = true) :
    @isNaNBits .binary64 x.toBits.toBitVec = true := by
  have hunpack : (unpack .binary64 x.toBits.toBitVec).isNaN = true := hx
  refine decide_eq_true ?_
  unfold unpack at hunpack
  dsimp only at hunpack
  split at hunpack
  · next hones =>
    split at hunpack
    · simp [isNaN] at hunpack
    · next hnonzero => exact ⟨hones, hnonzero⟩
  · split at hunpack
    · split at hunpack <;> simp [isNaN] at hunpack
    · simp [isNaN] at hunpack

/-- What is no number is read as none. -/
theorem ofFloat_of_isNaN {x : Float} (hx : x.isNaN = true) : ofFloat x = .nan := by
  obtain ⟨hones, hnonzero⟩ := of_decide_eq_true (isNaNBits_of_isNaN hx)
  have hbiased : (@unpackExponent .binary64 x.toBits.toBitVec).toNat = 2047 :=
    congrArg BitVec.toNat hones
  have hfraction : (@unpackMantissa .binary64 x.toBits.toBitVec).toNat ≠ 0 := fun hzero =>
    hnonzero (BitVec.eq_of_toNat_eq hzero)
  rw [toNat_unpackExponent] at hbiased
  rw [toNat_unpackMantissa] at hfraction
  have hbits : x.toBits.toNat = x.toBits.toBitVec.toNat := rfl
  unfold ofFloat ofBits
  simp only [Nat.pow_eq, hbits]
  rw [if_pos hbiased, if_neg hfraction]

/-- What is no number is not finite. -/
theorem isFinite_of_isNaN {x : Float} (hx : x.isNaN = true) : x.isFinite = false := by
  have hunpack : (unpack .binary64 x.toBits.toBitVec).isNaN = true := hx
  show (unpack .binary64 x.toBits.toBitVec).isFinite = false
  cases hvalue : unpack .binary64 x.toBits.toBitVec with
  | notANumber => rfl
  | _ => rw [hvalue] at hunpack; cases hunpack

/-- A pattern up to that of infinity is kept by its double. -/
theorem toBits_ofBits {bits : Nat} (hbits : bits ≤ infinityBits) :
    (Float.ofBits (UInt64.ofNat bits)).toBits.toNat = bits := by
  have hsmall : bits < 2 ^ 64 := Nat.lt_of_le_of_lt hbits (by decide)
  have hvector : (UInt64.ofNat bits).toBitVec.toNat = bits := Nat.mod_eq_of_lt hsmall
  have hnumber := isNaNBits_eq_false (hvector.le.trans hbits)
  have hpacked := @pack_unpack .binary64 (UInt64.ofNat bits).toBitVec
  rw [hnumber] at hpacked
  exact (congrArg BitVec.toNat (hpacked (by decide))).trans hvector

/-- What a pattern up to that of infinity stands for is what its double stands for. -/
theorem ofFloat_ofBits {bits : Nat} (hbits : bits ≤ infinityBits) :
    ofFloat (Float.ofBits (UInt64.ofNat bits)) = ofBits bits := by
  rw [ofFloat, toBits_ofBits hbits]

/-- A mantissa has its leading bit, or the exponent is the least; there is no largest exponent. -/
structure IsCanonical (mantissa : Nat) (exponent : Int) : Prop where
  mantissa_lt : mantissa < 2 ^ 53
  exponent_ge : -1074 ≤ exponent
  leading : exponent = -1074 ∨ 2 ^ 52 ≤ mantissa

/-- The mantissas and exponents of the finite doubles: a mantissa below `2 ^ 52` stands at the
least exponent only. -/
structure IsFormat (mantissa : Nat) (exponent : Int) : Prop where
  mantissa_lt : mantissa < 2 ^ 53
  exponent_ge : -1074 ≤ exponent
  exponent_le : exponent ≤ 971
  leading : exponent = -1074 ∨ 2 ^ 52 ≤ mantissa

/-- The mantissa and exponent of a finite double are canonical. -/
theorem IsFormat.isCanonical {m : Nat} {e : Int} (h : IsFormat m e) : IsCanonical m e :=
  ⟨h.mantissa_lt, h.exponent_ge, h.leading⟩

/-- The pattern of a mantissa and an exponent. Its exponent field is one more than that of the
spacing where the mantissa has its leading bit, which then carries into it. -/
def pattern (mantissa : Nat) (exponent : Int) : Nat :=
  (exponent + 1074).toNat * 2 ^ 52 + mantissa

/-- The pattern of a finite double is below that of infinity. -/
theorem IsFormat.pattern_lt {m : Nat} {e : Int} (h : IsFormat m e) :
    pattern m e < infinityBits := by
  obtain ⟨hm, hlow, hhigh, -⟩ := h
  simp only [pattern, infinityBits, Nat.pow_eq]
  omega

/-- The numbers without a sign: a finite pattern is that of its own mantissa and exponent. -/
theorem of_ofBits_eq_finite {bits m : Nat} {e : Int} (hbits : bits < 2 ^ 64)
    (hfinite : ofBits bits = .finite false m e) : IsFormat m e ∧ bits = pattern m e := by
  simp only [ofBits, Nat.pow_eq] at hfinite
  unfold pattern
  split at hfinite
  · split at hfinite <;> simp at hfinite
  · next hspecial =>
    split at hfinite
    · next hsmall =>
      simp only [Binary64.finite.injEq, decide_eq_false_iff_not] at hfinite
      obtain ⟨hsign, rfl, rfl⟩ := hfinite
      exact ⟨⟨by omega, by omega, by omega, .inl rfl⟩, by omega⟩
    · next hlarge =>
      simp only [Binary64.finite.injEq, decide_eq_false_iff_not] at hfinite
      obtain ⟨hsign, rfl, rfl⟩ := hfinite
      exact ⟨⟨by omega, by omega, by omega, .inr (by omega)⟩, by omega⟩

/-- A finite double without a sign is that of its mantissa and exponent. -/
theorem of_ofFloat_eq_finite {x : Float} {m : Nat} {e : Int}
    (hfinite : ofFloat x = .finite false m e) :
    IsFormat m e ∧ x = Float.ofBits (UInt64.ofNat (pattern m e)) := by
  obtain ⟨hformat, hbits⟩ := of_ofBits_eq_finite x.toBits.toNat_lt hfinite
  rw [← hbits, UInt64.ofNat_toNat, Float.ofBits_toBits]
  exact ⟨hformat, rfl⟩

/-- A pattern up to that of infinity has no sign. -/
theorem ofBits_of_le {bits : Nat} (hbits : bits ≤ infinityBits) :
    ofBits bits = .infinite false ∨ ∃ m e, ofBits bits = .finite false m e := by
  simp only [infinityBits, Nat.pow_eq] at hbits
  simp only [ofBits, Nat.pow_eq]
  have hsign : ¬ bits / 2 ^ 63 % 2 = 1 := by omega
  simp only [hsign, decide_false]
  split
  · rw [if_pos (by omega)]
    exact .inl rfl
  · split
    · exact .inr ⟨_, _, rfl⟩
    · exact .inr ⟨_, _, rfl⟩

end Reckoner.Binary64
