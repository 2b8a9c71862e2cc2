import Reckoner.Proofs.Answer.Grouping
import Reckoner.Proofs.Binary64.Operations

/-!
# Zeros with a sign

A number that is written with zeros only should not be written with a sign. That holds of integers
in another base than ten, of twelve significant digits and of powers of ten. With a fixed count of
places it does not: a double with a sign keeps it, be it zero or so small that no digit is left of
it. This file finds out which numbers are written as a negative zero.
-/

namespace Reckoner.Answer

open Binary64
open Decimal (signed digits withPoint fixed isDigit_digits digits_begin)

/-! ## Texts of zeros -/

/-- A magnitude without the mark of a base. -/
def withoutBaseMark : List Char → List Char
  | '0' :: 'b' :: rest => rest
  | '0' :: 'o' :: rest => rest
  | '0' :: 'x' :: rest => rest
  | text => text

/-- Whether a magnitude begins with digits that are all zeros, behind the mark of a base and before
a power of ten. -/
def hasZeroMantissa (text : List Char) : Bool :=
  let mantissa := ((withoutBaseMark text).takeWhile isNumeralChar).filter Char.isDigit
  !mantissa.isEmpty && mantissa.all (· == '0')

/-- Whether a text is a minus sign and a magnitude whose digits are all zeros. -/
def isNegativeZero (text : List Char) : Bool :=
  match text.filter (!isSeparator ·) with
  | '-' :: magnitude => hasZeroMantissa magnitude
  | '−' :: magnitude => hasZeroMantissa magnitude
  | _ => false

-- Groups, the kind of the sign, a mark and a power of ten make no difference.
example : isNegativeZero "-0.00".toList ∧ isNegativeZero "−0x0".toList ∧
    isNegativeZero "-0.0e-12".toList ∧ ¬ isNegativeZero "0.00".toList ∧
    ¬ isNegativeZero "-0.001".toList ∧ ¬ isNegativeZero "-1 000".toList := by
  decide

variable {text rest : List Char} {c : Char} {print : PrintSettings}

/-- Groups make no difference to the sign of zero. -/
@[simp] theorem isNegativeZero_grouped (print : PrintSettings) (text : List Char) :
    isNegativeZero (grouped print text) = isNegativeZero text := by
  unfold isNegativeZero
  rw [filter_grouped]

/-- Neither does the kind of the minus sign. -/
@[simp] theorem isNegativeZero_typographic (print : PrintSettings) (text : List Char) :
    isNegativeZero (typographic print text) = isNegativeZero text := by
  unfold typographic
  split
  · split
    · unfold isNegativeZero
      rw [List.filter_cons_of_pos (by decide), List.filter_cons_of_pos (by decide)]
      rfl
    · rfl
  · rfl

/-- A character that is no minus sign. -/
def isUnsigned (c : Char) : Bool :=
  c != '-' && c != '−'

/-- A text is a negative zero if it has a sign and zeros behind it. -/
theorem isNegativeZero_signed (htext : ∀ c' ∈ c :: rest, isSeparator c' = false)
    (hbegins : isUnsigned c = true) (negative : Bool) :
    isNegativeZero (signed negative (c :: rest)) = (negative && hasZeroMantissa (c :: rest)) := by
  have hkept : (c :: rest).filter (!isSeparator ·) = c :: rest := filter_of_not_isSeparator htext
  unfold isNegativeZero
  cases negative with
  | true =>
    rw [signed, if_pos rfl, List.filter_cons_of_pos (by decide), hkept]
    rfl
  | false =>
    rw [signed, if_neg (by decide), hkept, Bool.false_and]
    split
    · next heq =>
      obtain ⟨rfl, -⟩ := List.cons.inj heq
      exact absurd hbegins (by decide)
    · next heq =>
      obtain ⟨rfl, -⟩ := List.cons.inj heq
      exact absurd hbegins (by decide)
    · rfl

/-- A digit of a base. Capital letters go on after nine. -/
def isBaseDigit (c : Char) : Bool :=
  c.isDigit || ('A' ≤ c && c ≤ 'F')

theorem isUnsigned_of_isBaseDigit (hc : isBaseDigit c = true) : isUnsigned c = true := by
  rw [isUnsigned, Bool.and_eq_true, bne_iff_ne, bne_iff_ne]
  constructor <;>
  · rintro rfl
    exact absurd hc (by decide)

theorem isBaseDigit_of_isDigit (hc : c.isDigit = true) : isBaseDigit c = true := by
  rw [isBaseDigit, hc, Bool.true_or]

/-! ## Positional notation -/

/-- Digits stand for zero just if they are all zeros. -/
theorem ofDigits_eq_zero_iff (htext : ∀ c ∈ text, c.isDigit = true) :
    Decimal.ofDigits text = 0 ↔ text.all (· == '0') = true := by
  induction text with
  | nil => simp [Decimal.ofDigits]
  | cons c rest ih =>
    obtain ⟨hc, hrest⟩ := List.forall_mem_cons.mp htext
    have hzero : c.toNat - '0'.toNat = 0 ↔ c = '0' := by
      rw [Char.isDigit_iff_toNat] at hc
      rw [← Char.toNat_inj]
      have hvalue : '0'.toNat = 48 := rfl
      omega
    rw [Decimal.ofDigits, Nat.ofDigitChars_cons, Nat.ofDigitChars_eq_ofDigitChars_zero, mul_zero,
      zero_add, Nat.add_eq_zero_iff, Nat.mul_eq_zero, hzero, List.all_cons, Bool.and_eq_true,
      beq_iff_eq, ← ih hrest, Decimal.ofDigits]
    simp

/-- A letter that ends the mark of a base. -/
def isMarkLetter (c : Char) : Bool :=
  c == 'b' || c == 'o' || c == 'x'

/-- Without such a letter there is no mark. -/
theorem withoutBaseMark_of_tail (htext : ∀ c ∈ text.tail.head?, isMarkLetter c = false) :
    withoutBaseMark text = text := by
  unfold withoutBaseMark
  split
  · exact absurd (htext 'b' rfl) (by decide)
  · exact absurd (htext 'o' rfl) (by decide)
  · exact absurd (htext 'x' rfl) (by decide)
  · rfl

/-- A mark is taken off. -/
theorem withoutBaseMark_cons (hc : isMarkLetter c = true) (rest : List Char) :
    withoutBaseMark ('0' :: c :: rest) = rest := by
  rw [isMarkLetter, Bool.or_eq_true, Bool.or_eq_true, beq_iff_eq, beq_iff_eq, beq_iff_eq] at hc
  rcases hc with (rfl | rfl) | rfl <;> rfl

theorem isMarkLetter_of_isNumeralChar (hc : isNumeralChar c = true) : isMarkLetter c = false := by
  by_contra hmark
  rw [Bool.not_eq_false, isMarkLetter, Bool.or_eq_true, Bool.or_eq_true, beq_iff_eq, beq_iff_eq,
    beq_iff_eq] at hmark
  rcases hmark with (rfl | rfl) | rfl <;> exact absurd hc (by decide)

/-- What may come after a numeral, such as a power of ten. -/
def EndsNumeral (rest : List Char) : Prop :=
  ∀ c ∈ rest.head?, isNumeralChar c = false ∧ isMarkLetter c = false

/-- The digits of a numeral are those before its point and behind it. -/
theorem IsNumeral.filter_isDigit {whole fraction : List Char} (h : IsNumeral text whole fraction) :
    text.filter Char.isDigit = whole ++ fraction := by
  have hdigits := List.filter_eq_self.mpr h.isDigit
  rw [h.text_eq]
  split
  · next hnone =>
    rw [hnone, List.append_nil] at hdigits ⊢
    exact hdigits
  · rw [List.filter_append, List.filter_cons_of_neg (by decide), ← List.filter_append, hdigits]

/-- A numeral does not begin with a mark. -/
theorem IsNumeral.withoutBaseMark_append {whole fraction : List Char}
    (h : IsNumeral text whole fraction) (hrest : EndsNumeral rest) :
    withoutBaseMark (text ++ rest) = text ++ rest := by
  obtain ⟨c, others, htext, -⟩ := h.begins
  have hothers : ∀ c ∈ others, Answer.isNumeralChar c = true := fun c hc =>
    h.isNumeralChar c (htext ▸ List.mem_cons_of_mem _ hc)
  refine withoutBaseMark_of_tail fun c hc => ?_
  rw [htext, List.cons_append, List.tail_cons] at hc
  cases others with
  | nil => exact (hrest c hc).2
  | cons second others =>
    obtain rfl : second = c := Option.some.inj hc
    exact isMarkLetter_of_isNumeralChar (hothers second List.mem_cons_self)

/-- A numeral has zeros only if it stands for zero. -/
theorem DenotesAt.hasZeroMantissa_append {q : ℚ} (h : DenotesAt text q) (hrest : EndsNumeral rest) :
    hasZeroMantissa (text ++ rest) = true ↔ q = 0 := by
  obtain ⟨whole, fraction, hnumeral, hvalue⟩ := h
  have hzero : Decimal.ofDigits (whole ++ fraction) = 0 ↔ q = 0 := by
    have hq := hvalue 0
    rw [value_ofParts, zpow_zero, mul_one, mul_one] at hq
    rw [← hq, div_eq_zero_iff, Nat.cast_eq_zero]
    simp
  have htake : rest.takeWhile isNumeralChar = [] := by
    cases rest with
    | nil => rfl
    | cons c others => exact List.takeWhile_cons_of_neg (by simp [(hrest c rfl).1])
  have hne : (whole ++ fraction).isEmpty = false := by simp [hnumeral.whole_ne_nil]
  unfold hasZeroMantissa
  rw [hnumeral.withoutBaseMark_append hrest, List.takeWhile_append_of_pos hnumeral.isNumeralChar,
    htake, List.append_nil]
  dsimp only
  rw [hnumeral.filter_isDigit, hne, ← hzero, ofDigits_eq_zero_iff hnumeral.isDigit]
  simp

/-- Positional notation with a sign is a negative zero if there is a sign before zero. -/
theorem DenotesAt.isNegativeZero_signed {q : ℚ} (h : DenotesAt text q) (negative : Bool)
    (hseparator : ∀ c ∈ rest, isSeparator c = false) (hrest : EndsNumeral rest) :
    isNegativeZero (signed negative (text ++ rest)) = true ↔ negative = true ∧ q = 0 := by
  have hnone : ∀ c ∈ text ++ rest, isSeparator c = false :=
    List.forall_mem_append.mpr ⟨h.not_isSeparator, hseparator⟩
  have hzero := h.hasZeroMantissa_append hrest
  obtain ⟨whole, fraction, hnumeral, -⟩ := h
  obtain ⟨c, others, rfl, hc⟩ := hnumeral.begins
  rw [List.cons_append] at hnone hzero ⊢
  have hbegins := isUnsigned_of_isBaseDigit (isBaseDigit_of_isDigit hc)
  rw [Answer.isNegativeZero_signed hnone hbegins, Bool.and_eq_true, hzero]

/-- So is positional notation with nothing behind it. -/
theorem DenotesAt.isNegativeZero_signed_bare {q : ℚ} (h : DenotesAt text q) (negative : Bool) :
    isNegativeZero (signed negative text) = true ↔ negative = true ∧ q = 0 := by
  have hend : EndsNumeral [] := nofun
  have hzero := h.isNegativeZero_signed negative (List.forall_mem_nil _) hend
  rwa [List.append_nil] at hzero

/-! ## Ways to write a number -/

variable {x : Float} {negative : Bool} {m : Nat} {e : ℤ}

theorem natCast_div_pow_eq_zero_iff (n places : Nat) : (n : ℚ) / 10 ^ places = 0 ↔ n = 0 := by
  have hpower : (10 : ℚ) ^ places ≠ 0 := by positivity
  rw [div_eq_zero_iff, or_iff_left hpower, Nat.cast_eq_zero]

/-- With a count of places, a quotient is rounded to zero just if it is at most half a unit of the
last place. -/
theorem roundHalfEven_eq_zero_iff (num places : Nat) {den : Nat} (hden : 0 < den) :
    roundHalfEven (num * 10 ^ places) den = 0 ↔
      (num : ℚ) / den ≤ 1 / 2 * 10 ^ (-(places : ℤ)) := by
  have hnearest := roundHalfEven_eq_nearestInteger (num * 10 ^ places) hden
  have hscaled : ((num * 10 ^ places : ℕ) : ℚ) / den = (num : ℚ) / den * 10 ^ places := by
    push_cast
    ring
  have hnonneg : 0 ≤ (num : ℚ) / den * 10 ^ places := by positivity
  rw [hscaled] at hnearest
  have hhalf : (num : ℚ) / den ≤ 1 / 2 * 10 ^ (-(places : ℤ)) ↔
      (num : ℚ) / den * 10 ^ places ≤ 1 / 2 := by
    rw [zpow_neg, zpow_natCast, ← div_eq_mul_inv, le_div_iff₀ (by positivity)]
  rw [hhalf, ← Nat.cast_eq_zero (R := ℤ), hnearest]
  constructor
  · intro hzero
    obtain ⟨hnear, -⟩ := isNearestInteger_nearestInteger ((num : ℚ) / den * 10 ^ places)
    rwa [hzero, Int.cast_zero, sub_zero, abs_of_nonneg hnonneg] at hnear
  · intro hsmall
    refine IsNearestInteger.eq ⟨?_, fun _ => ⟨0, rfl⟩⟩
    rwa [Int.cast_zero, sub_zero, abs_of_nonneg hnonneg]

/-- With a fixed count of places, a sign stays before zeros. -/
theorem isNegativeZero_fixed (hread : ofFloat x = .finite negative m e) (places : Nat) :
    isNegativeZero (fixed places x) = true ↔
      negative = true ∧ |toRat x| ≤ 1 / 2 * 10 ^ (-(places : ℤ)) := by
  rw [abs_toRat_of_ofFloat hread, ← roundHalfEven_eq_zero_iff _ _ (denominator_pos e), fixed, hread]
  dsimp only [Decimal.fixedMagnitude, Nat.pow_eq]
  rw [(denotesAt_withPoint _ places).isNegativeZero_signed_bare, natCast_div_pow_eq_zero_iff]

/-- Zero is left of a zero with any count of places. -/
theorem trimFraction_withPoint_zero (places : Nat) : trimFraction (withPoint 0 places) = ['0'] := by
  rcases Nat.eq_zero_or_pos places with rfl | hplaces
  · decide
  · have htext : withPoint 0 places = '0' :: '.' :: List.replicate places '0' := by
      rw [withPoint, if_neg hplaces.ne', Nat.zero_div, Nat.zero_mod, Decimal.padded_zero hplaces]
      rfl
    rw [htext, trimFraction, if_pos (by simp)]
    simp [List.dropWhile_append_of_pos]

/-- Twelve significant digits are no negative zero. -/
theorem isNegativeZero_significantText (hread : ofFloat x = .finite negative m e) :
    isNegativeZero (significantText x) = false := by
  unfold significantText
  rw [hread]
  dsimp only [Decimal.fixedMagnitude, Nat.pow_eq]
  generalize significantPlaces (numerator m e) (denominator e) = places
  generalize roundHalfEven (numerator m e * 10 ^ places) (denominator e) = scaled
  split
  · next hzero =>
    rw [hzero]
    decide
  · next hnonzero =>
    rw [← Bool.not_eq_true,
      (denotesAt_withPoint scaled places).trimFraction.isNegativeZero_signed_bare,
      natCast_div_pow_eq_zero_iff]
    rintro ⟨-, rfl⟩
    exact hnonzero (trimFraction_withPoint_zero places)

/-- A power of ten ends a numeral. -/
theorem endsNumeral_of_readPower? {power : ℤ} (hhead : ∀ c ∈ rest.head?, isNumeralChar c = false)
    (hpower : readPower? rest = some power) : EndsNumeral rest := by
  intro c hc
  refine ⟨hhead c hc, ?_⟩
  unfold readPower? at hpower
  split at hpower
  · cases hc
  · cases hc; decide
  · cases hc; decide
  · cases hc; decide
  · cases hc; decide
  · cases hpower

/-- A number with a power of ten is no negative zero. -/
theorem isNegativeZero_exponentialText (print : PrintSettings) (negative : Bool) {num den : Nat}
    (hnum : 0 < num) (hden : 0 < den) :
    isNegativeZero (signed negative (exponentialText print num den)) = false := by
  obtain ⟨hlow, -, -⟩ := Decimal.significantDigits_spec (significantCount - 1) hnum hden
  obtain ⟨rest, htext, hseparator, hhead, hpower⟩ := exponentialText_eq print num den
  generalize Decimal.significantDigits (significantCount - 1) num den = d at *
  have hdenotes : DenotesAt (mantissaText d) (d.coefficient / 10 ^ (significantCount - 1)) :=
    (denotesAt_withPoint _ _).trimFraction
  have hpositive : 0 < d.coefficient := lt_of_lt_of_le (by positivity) hlow
  rw [htext, ← Bool.not_eq_true, hdenotes.isNegativeZero_signed negative hseparator
    (endsNumeral_of_readPower? hhead hpower), natCast_div_pow_eq_zero_iff]
  exact fun hzero => hpositive.ne' hzero.2

/-! ## Integers in another base -/

/-- The digits of a number begin with a digit, which is a zero for zero only. -/
theorem digitsInBase_begins (base n : Nat) :
    ∃ c rest, digitsInBase base n = c :: rest ∧ isBaseDigit c = true ∧ (n ≠ 0 → c ≠ '0') := by
  by_cases hbase : base = 2 ∨ base = 8 ∨ base = 16
  · obtain ⟨hread, hhead, -⟩ := writesInBase_digitsInBase hbase n
    cases htext : digitsInBase base n with
    | nil => rw [htext] at hread; cases hread
    | cons c rest =>
      rw [htext] at hread hhead
      refine ⟨c, rest, rfl, ?_, fun hn hc => hhead hn (congrArg some hc)⟩
      rw [readInBase?, if_neg (List.cons_ne_nil c rest), List.foldlM_cons] at hread
      obtain ⟨first, hfirst, -⟩ := Option.bind_eq_some_iff.mp hread
      by_contra hdigit
      rw [isBaseDigit, Bool.or_eq_true, Bool.and_eq_true, decide_eq_true_iff, decide_eq_true_iff,
        not_or] at hdigit
      rw [withDigit?, digitValue?, if_neg hdigit.1, if_neg hdigit.2] at hfirst
      cases hfirst
  · obtain ⟨c, rest, htext, hc⟩ := digits_begin n []
    rw [List.append_nil] at htext
    refine ⟨c, rest, by rw [digitsInBase, if_neg hbase, htext], isBaseDigit_of_isDigit hc, ?_⟩
    rintro hn rfl
    refine head?_toDigits_ne_zero (by decide : 1 < 10) (by decide) hn ?_
    have hdigits : Nat.toDigits 10 n = '0' :: rest := htext
    rw [hdigits]
    rfl

/-- There is no mark, or it is a zero and a letter. -/
theorem baseMark_eq_or (display : BaseDisplay) (base : Nat) :
    baseMark display base = [] ∨
      ∃ letter, baseMark display base = ['0', letter] ∧ isMarkLetter letter = true := by
  unfold baseMark
  split
  · exact .inl rfl
  · split_ifs
    · exact .inr ⟨'b', rfl, by decide⟩
    · exact .inr ⟨'o', rfl, by decide⟩
    · exact .inr ⟨'x', rfl, by decide⟩
    · exact .inl rfl

/-- Behind the mark, the digits of a number that is not zero are found. -/
theorem withoutBaseMark_marked (display : BaseDisplay) (base : Nat) (hne : c ≠ '0') :
    withoutBaseMark (baseMark display base ++ c :: rest) = c :: rest := by
  rcases baseMark_eq_or display base with hnone | ⟨letter, hmark, hletter⟩
  · rw [hnone, List.nil_append]
    unfold withoutBaseMark
    split
    · next heq => exact absurd (List.cons.inj heq).1 hne
    · next heq => exact absurd (List.cons.inj heq).1 hne
    · next heq => exact absurd (List.cons.inj heq).1 hne
    · rfl
  · rw [hmark]
    exact withoutBaseMark_cons hletter (c :: rest)

/-- In another base, the digits of a number that is not zero are not all zeros. -/
theorem hasZeroMantissa_marked (display : BaseDisplay) (base : Nat) {n : Nat} (hn : n ≠ 0) :
    hasZeroMantissa (baseMark display base ++ digitsInBase base n) = false := by
  obtain ⟨c, rest, htext, hc, hne⟩ := digitsInBase_begins base n
  unfold hasZeroMantissa
  rw [htext, withoutBaseMark_marked display base (hne hn)]
  dsimp only
  by_cases hdigit : c.isDigit = true
  · have hnumeral : isNumeralChar c = true := by rw [isNumeralChar, hdigit, Bool.true_or]
    rw [List.takeWhile_cons_of_pos hnumeral, List.filter_cons_of_pos hdigit, List.all_cons,
      beq_eq_false_iff_ne.mpr (hne hn), Bool.false_and, Bool.and_false]
  · -- A letter is no part of a numeral, so nothing is left of the mantissa.
    have hother : ¬ isNumeralChar c = true := by
      rw [isNumeralChar, Bool.or_eq_true, beq_iff_eq]
      rintro (h | rfl)
      · exact hdigit h
      · exact absurd hc (by decide)
    rw [List.takeWhile_cons_of_neg hother]
    rfl

/-- The magnitude of an integer in another base begins without a sign. -/
theorem marked_begins (display : BaseDisplay) (base n : Nat) :
    ∃ c rest, baseMark display base ++ digitsInBase base n = c :: rest ∧ isUnsigned c = true := by
  obtain ⟨c, rest, htext, hc, -⟩ := digitsInBase_begins base n
  rw [htext]
  rcases baseMark_eq_or display base with hnone | ⟨letter, hmark, -⟩
  · exact ⟨c, rest, by rw [hnone, List.nil_append], isUnsigned_of_isBaseDigit hc⟩
  · exact ⟨'0', letter :: c :: rest, by rw [hmark]; rfl, by decide⟩

/-- The whole part of a double without a fraction is its magnitude. -/
theorem natCast_wholePart (hread : ofFloat x = .finite negative m e)
    (hintegral : (Binary64.finite negative m e).isIntegral = true) :
    ((Binary64.finite negative m e).wholePart : ℚ) = |toRat x| := by
  have hdivides : denominator e ∣ numerator m e := by
    have hmod : m % denominator e = 0 := beq_iff_eq.mp hintegral
    exact (Nat.dvd_of_mod_eq_zero hmod).mul_right _
  have hden : (denominator e : ℚ) ≠ 0 := by exact_mod_cast (denominator_pos e).ne'
  rw [abs_toRat_of_ofFloat hread]
  exact Nat.cast_div hdivides hden

/-- An integer in another base is no negative zero. -/
theorem isNegativeZero_inBase (hread : ofFloat x = .finite negative m e)
    (hintegral : (Binary64.finite negative m e).isIntegral = true) :
    isNegativeZero (signed (negative && m != 0) (baseMark print.baseDisplay print.base ++
      digitsInBase print.base (Binary64.finite negative m e).wholePart)) = false := by
  have hwhole := natCast_wholePart hread hintegral
  rw [abs_toRat_of_ofFloat hread] at hwhole
  generalize (Binary64.finite negative m e).wholePart = n at *
  have hnone : ∀ c ∈ baseMark print.baseDisplay print.base ++ digitsInBase print.base n,
      isSeparator c = false :=
    List.forall_mem_append.mpr ⟨not_isSeparator_baseMark _ _, not_isSeparator_digitsInBase _ _⟩
  have hzero (hn : n ≠ 0) := hasZeroMantissa_marked print.baseDisplay print.base hn
  obtain ⟨c, rest, htext, hc⟩ := marked_begins print.baseDisplay print.base n
  rw [htext] at hnone hzero ⊢
  rw [isNegativeZero_signed hnone hc]
  rcases Nat.eq_zero_or_pos m with rfl | hm
  · simp
  · rw [hzero, Bool.and_false]
    rintro rfl
    have hnum : (0 : ℚ) < numerator m e := by
      simp only [numerator, Nat.pow_eq]
      positivity
    have hden : (0 : ℚ) < denominator e := by exact_mod_cast denominator_pos e
    exact absurd hwhole (by rw [Nat.cast_zero]; exact (div_pos hnum hden).ne)

/-! ## Numbers -/

/-- Half a unit of any place behind the point is at most a half. -/
theorem half_unit_le (places : Nat) : 1 / 2 * (10 : ℚ) ^ (-(places : ℤ)) ≤ 1 / 2 := by
  have hunit : (10 : ℚ) ^ (-(places : ℤ)) ≤ 1 :=
    zpow_le_one_of_nonpos₀ (by norm_num) (by omega)
  linarith

/-- A double without a fraction that is at most a half is zero. -/
theorem toRat_eq_zero_of_isIntegral (hread : ofFloat x = .finite negative m e)
    (hintegral : (Binary64.finite negative m e).isIntegral = true) (hsmall : |toRat x| ≤ 1 / 2) :
    toRat x = 0 := by
  rw [← natCast_wholePart hread hintegral] at hsmall
  have hless : ((Binary64.finite negative m e).wholePart : ℚ) < (1 : ℕ) := by
    rw [Nat.cast_one]
    linarith
  have hzero : (Binary64.finite negative m e).wholePart = 0 :=
    Nat.lt_one_iff.mp (Nat.cast_lt.mp hless)
  rw [← abs_eq_zero, ← natCast_wholePart hread hintegral, hzero, Nat.cast_zero]

/-- Unless it is written as an integer in another base, a number is in base ten or not zero. -/
theorem base_eq_ten_or_ne_zero (hread : ofFloat x = .finite negative m e)
    (hother : ¬ (print.base ≠ 10 ∧ (Binary64.finite negative m e).isIntegral = true ∧
      (Binary64.finite negative m e).wholePart < Nat.pow 2 53)) :
    print.base = 10 ∨ toRat x ≠ 0 := by
  rw [or_iff_not_imp_left]
  intro hbase hvalue
  have hinteger : toRat x = (0 : ℤ) := by rw [hvalue, Int.cast_zero]
  refine hother ⟨hbase, isIntegral_of_toRat_eq hread hinteger, ?_⟩
  rw [wholePart_of_toRat_eq hread hinteger]
  decide

/-- Without a count of places, a number that is written in base ten is no negative zero. -/
theorem isNegativeZero_unfixed (hread : ofFloat x = .finite negative m e) (print : PrintSettings) :
    isNegativeZero (if isPlainMagnitude (numerator m e) (denominator e) then
        grouped print (significantText x)
      else signed negative (exponentialText print (numerator m e) (denominator e))) = false := by
  split
  · rw [isNegativeZero_grouped, isNegativeZero_significantText hread]
  · next hplain =>
    have hnum : 0 < numerator m e := by
      refine Nat.pos_of_ne_zero fun hzero => hplain ?_
      simp [isPlainMagnitude, hzero]
    exact isNegativeZero_exponentialText print negative hnum (denominator_pos e)

/-- Without a count of places no number is written as a negative zero. With one, that happens just
to doubles with a sign that are at most half a unit of the last place from zero, apart from zero
itself in another base than ten. -/
theorem isNegativeZero_number_iff (print : PrintSettings) (decimals : Option Nat)
    (hx : x.isFinite = true) :
    isNegativeZero (number print decimals x).toList = true ↔
      ∃ places, decimals = some places ∧ (ofFloat x).isNegative = true ∧
        |toRat x| ≤ 1 / 2 * 10 ^ (-(places : ℤ)) ∧ (print.base = 10 ∨ toRat x ≠ 0) := by
  obtain ⟨negative, m, e, hread⟩ := isFinite_iff.mp hx
  have htext : (number print decimals x).toList =
      typographic print (finiteText print decimals x negative m e) := by
    rw [number, String.toList_ofList, numberChars, hread]
  have hsign : (ofFloat x).isNegative = negative := by rw [hread]; rfl
  rw [htext, isNegativeZero_typographic, hsign]
  unfold finiteText
  dsimp only
  split
  · next hinteger =>
    obtain ⟨hbase, hintegral, -⟩ := hinteger
    rw [isNegativeZero_inBase hread hintegral]
    simp only [Bool.false_eq_true, false_iff, not_exists, not_and, not_or, not_not]
    intro places _ _ hsmall
    exact ⟨hbase, toRat_eq_zero_of_isIntegral hread hintegral (hsmall.trans (half_unit_le places))⟩
  · next hother =>
    cases decimals with
    | some places =>
      dsimp only
      rw [isNegativeZero_grouped, isNegativeZero_fixed hread]
      constructor
      · rintro ⟨hnegative, hsmall⟩
        exact ⟨places, rfl, hnegative, hsmall, base_eq_ten_or_ne_zero hread hother⟩
      · rintro ⟨places', hsame, hnegative, hsmall, -⟩
        obtain rfl := Option.some.inj hsame
        exact ⟨hnegative, hsmall⟩
    | none =>
      dsimp only
      rw [isNegativeZero_unfixed hread]
      simp

/-- A tenth of a cent with a sign, in cents. -/
theorem isNegativeZero_number_thousandth :
    (-0.001 : Float).isFinite = true ∧ number {} (some 2) (-0.001) = "-0.00" ∧
      isNegativeZero (number {} (some 2) (-0.001)).toList = true := by
  have hx : (-0.001 : Float).isFinite = true := by decide +kernel
  have hsmall : |toRat (-0.001)| ≤ 1 / 2 * 10 ^ (-((2 : ℕ) : ℤ)) := by decide +kernel
  exact ⟨hx, by decide +kernel, (isNegativeZero_number_iff {} (some 2) hx).mpr
    ⟨2, rfl, by decide +kernel, hsmall, .inl rfl⟩⟩

end Reckoner.Answer
