import Reckoner.Proofs.Answer.Numeral
import Reckoner.Proofs.Binary64.Unpacked

/-!
# The accuracy of number text

Twelve significant digits are written with as many places as they take, or with a power of ten.
Either way the exact number is rounded once, so that the text is at most half a unit of its last
place away from the number. That place is the twelfth digit, except below `10 ^ (-4)`, where the
fifteen places that a plain numeral has at most come to an end before it.
-/

namespace Reckoner

namespace Decimal

variable {num den : Nat}

/-- A rounded quotient is at most a half away. -/
theorem abs_sub_roundHalfEven_le (num : Nat) (hden : 0 < den) :
    |(num : ℚ) / den - roundHalfEven num den| ≤ 1 / 2 := by
  have hinteger : ((roundHalfEven num den : ℤ) : ℚ) = roundHalfEven num den := Int.cast_natCast _
  rw [← hinteger, Binary64.roundHalfEven_eq_nearestInteger num hden]
  exact (Binary64.isNearestInteger_nearestInteger _).near

/-- A quotient rounded to a count of places is at most half a unit of the last one away. -/
theorem abs_rounded_places_sub_le (num places : Nat) (hden : 0 < den) :
    |(roundHalfEven (num * 10 ^ places) den : ℚ) / 10 ^ places - (num : ℚ) / den| ≤
      1 / 2 * 10 ^ (-(places : ℤ)) := by
  have hnear := abs_sub_roundHalfEven_le (num * 10 ^ places) hden
  generalize roundHalfEven (num * 10 ^ places) den = n at *
  have hscaled : ((num * 10 ^ places : ℕ) : ℚ) / den =
      (num : ℚ) / den / 10 ^ (-(places : ℤ)) := by
    rw [zpow_neg, zpow_natCast, div_inv_eq_mul]
    push_cast
    ring
  rw [hscaled] at hnear
  rw [div_eq_mul_inv (n : ℚ), ← zpow_natCast, ← zpow_neg]
  exact Binary64.abs_mul_sub_le_of_le_half (by positivity) hnear

/-- Significant digits are as many as are asked for, and at most half a unit of the last one away
from the quotient. -/
theorem significantDigits_spec (count : Nat) (hnum : 0 < num) (hden : 0 < den) :
    10 ^ count ≤ (significantDigits count num den).coefficient ∧
      (significantDigits count num den).coefficient < 10 ^ (count + 1) ∧
      |(significantDigits count num den).value - (num : ℚ) / den| ≤
        1 / 2 * 10 ^ (exponentOf num den - count) := by
  have hten : (10 : ℚ) ≠ 0 := by norm_num
  have hlow := exponentOf_le hnum hden
  have hhigh := lt_exponentOf hnum hden
  unfold significantDigits
  dsimp only [Nat.pow_eq]
  generalize exponentOf num den = lead at *
  generalize hlast : lead - (count : ℤ) = last
  have hpos : (0 : ℚ) < 10 ^ last := by positivity
  have hscaled : ((num * 10 ^ (-last).toNat : ℕ) : ℚ) / ((den * 10 ^ last.toNat : ℕ) : ℚ) =
      (num : ℚ) / den / 10 ^ last := scaled_div_scaled_neg num den 10 last
  have hscale (k : ℕ) : (10 : ℚ) ^ (last + k) = 10 ^ k * 10 ^ last := by
    rw [zpow_add₀ hten, zpow_natCast, mul_comm]
  have hdenominator : 0 < den * 10 ^ last.toNat := by positivity
  have hnear := abs_sub_roundHalfEven_le (num * 10 ^ (-last).toNat) hdenominator
  have hnearest :=
    Binary64.roundHalfEven_eq_nearestInteger (num * 10 ^ (-last).toNat) hdenominator
  rw [hscaled] at hnear hnearest
  generalize roundHalfEven (num * 10 ^ (-last).toNat) (den * 10 ^ last.toNat) = n at *
  generalize (num : ℚ) / den = q at *
  -- The scaled quotient lies between two powers of ten, and rounding does not leave them.
  have hatleast : 10 ^ count ≤ n := by
    have hle : ((10 ^ count : ℤ) : ℚ) ≤ q / 10 ^ last := by
      rw [le_div_iff₀ hpos]
      push_cast
      rw [← hscale count, ← hlast, sub_add_cancel]
      exact hlow
    have hmono := Binary64.nearestInteger_mono hle
    rw [Binary64.nearestInteger_intCast, ← hnearest] at hmono
    exact_mod_cast hmono
  have hatmost : n ≤ 10 ^ (count + 1) := by
    have hle : q / 10 ^ last ≤ ((10 ^ (count + 1) : ℤ) : ℚ) := by
      rw [div_le_iff₀ hpos]
      push_cast
      rw [← hscale (count + 1), ← hlast]
      push_cast
      rw [← add_assoc, sub_add_cancel]
      exact hhigh.le
    have hmono := Binary64.nearestInteger_mono hle
    rw [Binary64.nearestInteger_intCast, ← hnearest] at hmono
    exact_mod_cast hmono
  have hdistance : |(n : ℚ) * 10 ^ last - q| ≤ 1 / 2 * 10 ^ last :=
    Binary64.abs_mul_sub_le_of_le_half hpos hnear
  split
  · next hcarry =>
    have hvalue : value ⟨10 ^ count, last + 1⟩ = n * 10 ^ last := by
      rw [value, hcarry, zpow_add_one₀ hten]
      push_cast
      ring
    rw [hvalue]
    exact ⟨le_rfl, Nat.pow_lt_pow_right (by decide) (Nat.lt_succ_self count), hdistance⟩
  · next hkept => exact ⟨hatleast, lt_of_le_of_ne hatmost hkept, hdistance⟩

/-- The leading digit of a decimal is found from the count of its digits. -/
theorem leadingExponent_eq {d : Decimal} {count : Nat} (hlow : 10 ^ count ≤ d.coefficient)
    (hhigh : d.coefficient < 10 ^ (count + 1)) : d.leadingExponent = d.exponent + count := by
  have hpos : 0 < d.coefficient := lt_of_lt_of_le (by positivity) hlow
  have hmore := (Nat.pow_lt_pow_iff_right (by decide : 1 < 10)).mp
    (hlow.trans_lt (lt_pow_length_digits d.coefficient))
  have hless := (Nat.pow_lt_pow_iff_right (by decide : 1 < 10)).mp
    ((pow_length_digits_le hpos).trans_lt hhigh)
  unfold leadingExponent
  omega

end Decimal

namespace Answer

open Decimal Binary64

variable {x : Float} {num den : Nat}

/-- A sign makes no difference to a distance. -/
theorem abs_sign_mul_sub (negative : Bool) (d q : ℚ) :
    |(if negative then (-1 : ℚ) else 1) * d - (if negative then -1 else 1) * q| = |d - q| := by
  cases negative with
  | true => rw [if_pos rfl, neg_one_mul, neg_one_mul, neg_sub_neg, abs_sub_comm]
  | false => rw [if_neg (by decide), one_mul, one_mul]

/-- Only zero is denoted by a single zero. -/
theorem DenotesAt.eq_zero {q : ℚ} (h : DenotesAt ['0'] q) : q = 0 := by
  have hself : denoted ['0'] = some (1 * q) := h.denoted_signed_bare false
  have hzero : denoted ['0'] = some 0 := by decide +kernel
  rw [one_mul] at hself
  exact Option.some.inj (hself.symm.trans hzero)

/-- Plain significant digits denote a number that is at most half a unit of the last place away. -/
theorem exists_denoted_significantText {negative : Bool} {m : Nat} {e : ℤ}
    (hx : ofFloat x = .finite negative m e) :
    ∃ d, denoted (significantText x) = some d ∧
      |d - toRat x| ≤
        1 / 2 * 10 ^ (-(significantPlaces (numerator m e) (denominator e) : ℤ)) := by
  have hnear := abs_rounded_places_sub_le (numerator m e)
    (significantPlaces (numerator m e) (denominator e)) (denominator_pos e)
  rw [toRat_of_ofFloat hx]
  unfold significantText
  rw [hx]
  dsimp only [fixedMagnitude, Nat.pow_eq]
  generalize significantPlaces (numerator m e) (denominator e) = places at *
  generalize roundHalfEven (numerator m e * 10 ^ places) (denominator e) = scaled at *
  have hdenotes := (denotesAt_withPoint scaled places).trimFraction
  split
  · next hzero =>
    rw [hzero] at hdenotes ⊢
    rw [hdenotes.eq_zero] at hnear
    refine ⟨0, by decide +kernel, ?_⟩
    have hsign := abs_sign_mul_sub negative 0 ((numerator m e : ℚ) / denominator e)
    rw [mul_zero] at hsign
    rw [hsign]
    exact hnear
  · refine ⟨_, hdenotes.denoted_signed_bare negative, ?_⟩
    rw [abs_sign_mul_sub]
    exact hnear

/-- The text of an integer has no separators. -/
theorem isSeparator_integerText (n : ℤ) : ∀ c ∈ integerText n, isSeparator c = false := by
  intro c hc
  unfold integerText signed at hc
  split at hc
  · rcases List.mem_cons.mp hc with rfl | hdigit
    · decide
    · exact isSeparator_of_isDigit (isDigit_digits _ c hdigit)
  · exact isSeparator_of_isDigit (isDigit_digits _ c hc)

/-- The text of a quotient with a power of ten is a numeral, and the power is read behind it in
every way to write it. -/
theorem exponentialText_eq (print : PrintSettings) (num den : Nat) :
    ∃ rest, exponentialText print num den =
        mantissaText (significantDigits (significantCount - 1) num den) ++ rest ∧
      (∀ c ∈ rest, isSeparator c = false) ∧ (∀ c ∈ rest.head?, isNumeralChar c = false) ∧
      readPower? rest =
        some (significantDigits (significantCount - 1) num den).leadingExponent := by
  have hnone := isSeparator_integerText
    (significantDigits (significantCount - 1) num den).leadingExponent
  have hread := readInteger?_integerText
    (significantDigits (significantCount - 1) num den).leadingExponent
  unfold exponentialText
  refine ⟨_, rfl, ?_⟩
  generalize (significantDigits (significantCount - 1) num den).leadingExponent = power at *
  cases print.exponentDisplay with
  | lowercase => exact ⟨List.forall_mem_cons.mpr ⟨by decide, hnone⟩, by simp [isNumeralChar], hread⟩
  | uppercase => exact ⟨List.forall_mem_cons.mpr ⟨by decide, hnone⟩, by simp [isNumeralChar], hread⟩
  | powerOfTen =>
    have htimes (unicode : Bool) : ∀ c ∈ (if unicode = true then '×' else '*') :: "10^".toList,
        isSeparator c = false := by
      cases unicode <;> simp [isSeparator]
    refine ⟨fun c hc => ?_, ?_, ?_⟩
    · rcases List.mem_append.mp hc with hbefore | hpower
      · exact htimes print.useUnicodeSigns c hbefore
      · exact hnone c hpower
    · cases print.useUnicodeSigns <;> simp [isNumeralChar]
    · cases print.useUnicodeSigns <;> exact hread

/-- Significant digits with a power of ten denote a number that is at most half a unit of the last
digit away. -/
theorem exists_denoted_exponentialText (print : PrintSettings) (negative : Bool) (hnum : 0 < num)
    (hden : 0 < den) :
    ∃ d, denoted (signed negative (exponentialText print num den)) = some d ∧
      |d - (if negative then -1 else 1) * ((num : ℚ) / den)| ≤
        1 / 2 * 10 ^ (exponentOf num den - 11) := by
  obtain ⟨hlow, hhigh, hnear⟩ := significantDigits_spec (significantCount - 1) hnum hden
  obtain ⟨rest, htext, hseparator, hhead, hpower⟩ := exponentialText_eq print num den
  have hdenotes := (denotesAt_withPoint
    (significantDigits (significantCount - 1) num den).coefficient
    (significantCount - 1)).trimFraction
  have hdenoted := hdenotes.denoted_signed negative hseparator hhead hpower
  refine ⟨_, by rw [htext]; exact hdenoted, ?_⟩
  have hvalue : ((significantDigits (significantCount - 1) num den).coefficient : ℚ) /
      10 ^ (significantCount - 1) *
        10 ^ (significantDigits (significantCount - 1) num den).leadingExponent =
      (significantDigits (significantCount - 1) num den).value := by
    rw [leadingExponent_eq hlow hhigh, Decimal.value, zpow_add₀ (by norm_num), zpow_natCast]
    field_simp
  rw [hvalue, abs_sign_mul_sub]
  exact hnear

/-- The plain magnitudes are those from `10 ^ (-9)` up to `10 ^ 15`. -/
theorem isPlainMagnitude_iff (hnum : 0 < num) (hden : 0 < den) :
    isPlainMagnitude num den = true ↔
      (10 : ℚ) ^ (-9 : ℤ) ≤ (num : ℚ) / den ∧ (num : ℚ) / den < 10 ^ (15 : ℤ) := by
  have hden' : (0 : ℚ) < den := by exact_mod_cast hden
  have hlow : (10 : ℚ) ^ (-9 : ℤ) ≤ (num : ℚ) / den ↔ den ≤ num * 10 ^ 9 := by
    rw [zpow_neg, inv_eq_one_div, div_le_div_iff₀ (by positivity) hden', one_mul]
    exact_mod_cast Iff.rfl
  have hhigh : (num : ℚ) / den < 10 ^ (15 : ℤ) ↔ num < 10 ^ 15 * den := by
    rw [div_lt_iff₀ hden']
    exact_mod_cast Iff.rfl
  rw [hlow, hhigh]
  simp [isPlainMagnitude, hnum.ne']

/-- The place of the last digit that is shown of a number which starts at a power of ten. -/
def lastPlace (lead : ℤ) : ℤ :=
  if -9 ≤ lead ∧ lead ≤ -5 then -15 else lead - 11

/-- The places of a plain number go as far as its last place, or farther. -/
theorem neg_significantPlaces_le {lead : ℤ} (hnum : 0 < num) (hden : 0 < den)
    (hlead : exponentOf num den = lead) (hplain : isPlainMagnitude num den = true) :
    -(significantPlaces num den : ℤ) ≤ lastPlace lead := by
  have hten : (1 : ℚ) < 10 := by norm_num
  obtain ⟨hmin, -⟩ := (isPlainMagnitude_iff hnum hden).mp hplain
  have habove := (zpow_lt_zpow_iff_right₀ hten).mp (hmin.trans_lt (lt_exponentOf hnum hden))
  rw [hlead] at habove
  rw [significantPlaces, if_neg hnum.ne', hlead, lastPlace]
  split <;> omega

/-- A number with a power of ten is shown to its twelfth digit. -/
theorem lastPlace_of_not_plain {lead : ℤ} (hnum : 0 < num) (hden : 0 < den)
    (hlead : exponentOf num den = lead) (hplain : ¬ isPlainMagnitude num den = true) :
    lastPlace lead = lead - 11 := by
  have hlow := exponentOf_le hnum hden
  have hhigh := lt_exponentOf hnum hden
  rw [isPlainMagnitude_iff hnum hden, not_and_or, not_le, not_lt] at hplain
  have hten : (1 : ℚ) < 10 := by norm_num
  rw [hlead] at hlow hhigh
  rw [lastPlace, if_neg]
  rcases hplain with hsmall | hlarge
  · have hbelow := (zpow_lt_zpow_iff_right₀ hten).mp (hlow.trans_lt hsmall)
    omega
  · have habove := (zpow_lt_zpow_iff_right₀ hten).mp (hlarge.trans_lt hhigh)
    omega

/-- The text of a finite number in base ten denotes a number that differs from it by at most half a
unit of its last place. For a number between `10 ^ e` and `10 ^ (e + 1)` that is the place of the
twelfth digit, or the fifteenth place if it comes first. -/
theorem number_denotes_near {print : PrintSettings} {e : ℤ} (hbase : print.base = 10)
    (hx : x.isFinite = true) (hlow : (10 : ℚ) ^ e ≤ |toRat x|) (hhigh : |toRat x| < 10 ^ (e + 1)) :
    ∃ d, denoted (number print none x).toList = some d ∧
      |d - toRat x| ≤ 1 / 2 * 10 ^ lastPlace e := by
  obtain ⟨negative, m, k, hread⟩ := isFinite_iff.mp hx
  have hvalue := toRat_of_ofFloat hread
  have hden := denominator_pos k
  have hnum := numerator_pos_of_toRat_ne_zero hread
    (abs_pos.mp (lt_of_lt_of_le (by positivity) hlow))
  rw [abs_toRat_of_ofFloat hread] at hlow hhigh
  have hlead := exponentOf_eq hden hlow hhigh
  have htext : (number print none x).toList =
      typographic print (finiteText print none x negative m k) := by
    rw [number, String.toList_ofList, numberChars, hread]
  rw [htext, denoted_typographic, finiteText, if_neg fun h => h.1 hbase]
  split
  · next hplain =>
    obtain ⟨d, hdenoted, hnear⟩ := exists_denoted_significantText hread
    refine ⟨d, by rw [denoted_grouped, hdenoted], hnear.trans ?_⟩
    have hplaces := neg_significantPlaces_le hnum hden hlead hplain
    gcongr
    norm_num
  · next hplain =>
    obtain ⟨d, hdenoted, hnear⟩ := exists_denoted_exponentialText print negative hnum hden
    refine ⟨d, hdenoted, ?_⟩
    rw [hvalue, lastPlace_of_not_plain hnum hden hlead hplain, ← hlead]
    exact hnear

/-- Two thirds are shown to the twelfth place. -/
theorem number_denotes_near_two_thirds :
    ∃ d, denoted (number {} none (2.0 / 3.0)).toList = some d ∧
      |d - toRat (2.0 / 3.0)| ≤ 1 / 2 * 10 ^ lastPlace (-1) :=
  number_denotes_near rfl (by decide +kernel) (by decide +kernel) (by decide +kernel)

/-- With the fifteenth place before the twelfth digit, half a unit of that digit is exceeded. -/
theorem number_denotes_short_of_twelfth_digit :
    let x : Float := 0.000012345678901234
    ({} : PrintSettings).base = 10 ∧ x.isFinite = true ∧
      (10 : ℚ) ^ (-5 : ℤ) ≤ |toRat x| ∧ |toRat x| < 10 ^ (-5 + 1 : ℤ) ∧
      ¬ ∃ d, denoted (number {} none x).toList = some d ∧
        |d - toRat x| ≤ 1 / 2 * 10 ^ (-5 - 11 : ℤ) := by
  intro x
  have hdenoted : denoted (number {} none x).toList = some (12345678901 / 10 ^ 15) := by
    decide +kernel
  have hfar : ¬ |(12345678901 / 10 ^ 15 : ℚ) - toRat x| ≤ 1 / 2 * 10 ^ (-5 - 11 : ℤ) := by
    decide +kernel
  refine ⟨rfl, by decide +kernel, by decide +kernel, by decide +kernel, ?_⟩
  rintro ⟨d, hd, hnear⟩
  obtain rfl := Option.some.inj (hdenoted.symm.trans hd)
  exact hfar hnear

end Answer

end Reckoner
