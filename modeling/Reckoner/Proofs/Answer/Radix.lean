import Reckoner.Proofs.Answer.Accuracy

/-!
# Integers in another base

In another base than ten an integer is written with its digits in that base. This file reads such
digits back, in a way that depends on the base alone, and proves that the text of an integer is its
sign, the mark of the base where marks are asked for, and digits that are read as its magnitude.
-/

namespace Reckoner.Answer

open Binary64
open Decimal (signed)

/-! ## Reading digits -/

/-- The value of a digit. Capital letters go on after nine. -/
def digitValue? (c : Char) : Option Nat :=
  if c.isDigit then some (c.toNat - '0'.toNat)
  else if 'A' ≤ c ∧ c ≤ 'F' then some (c.toNat - 'A'.toNat + 10)
  else none

/-- A number with one more digit in a base. -/
def withDigit? (base n : Nat) (c : Char) : Option Nat :=
  match digitValue? c with
  | some digit => if digit < base then some (base * n + digit) else none
  | none => none

/-- The number that digits denote in a base. -/
def readInBase? (base : Nat) (text : List Char) : Option Nat :=
  if text = [] then none else text.foldlM (withDigit? base) 0

/-- Digits of a base denote a number and do not begin with a zero, except for the one of zero. -/
structure WritesInBase (base n : Nat) (text : List Char) : Prop where
  read_eq : readInBase? base text = some n
  head_ne_zero : n ≠ 0 → text.head? ≠ some '0'
  eq_of_zero : n = 0 → text = ['0']

variable {base : Nat}

/-- A digit that was written has its value. -/
theorem digitValue?_toUpper_digitChar {digit : Nat} (hdigit : digit < 16) :
    digitValue? (Nat.digitChar digit).toUpper = some digit := by
  interval_cases digit <;> decide

/-- A zero is written for zero only. -/
theorem toUpper_digitChar_ne_zero {digit : Nat} (hdigit : digit < 16) (hne : digit ≠ 0) :
    (Nat.digitChar digit).toUpper ≠ '0' := by
  intro hzero
  have hvalue := digitValue?_toUpper_digitChar hdigit
  rw [hzero] at hvalue
  exact hne (Option.some.inj hvalue).symm

/-- A digit that was written goes on with a number. -/
theorem withDigit?_toUpper_digitChar (hmax : base ≤ 16) (n : Nat) {digit : Nat}
    (hdigit : digit < base) :
    withDigit? base n (Nat.digitChar digit).toUpper = some (base * n + digit) := by
  rw [withDigit?, digitValue?_toUpper_digitChar (hdigit.trans_le hmax)]
  exact if_pos hdigit

/-- The digits of a number are read as it. -/
theorem foldlM_toDigits (hone : 1 < base) (hmax : base ≤ 16) (n : Nat) :
    ((Nat.toDigits base n).map Char.toUpper).foldlM (withDigit? base) 0 = some n := by
  induction n using Nat.strongRecOn with
  | ind n ih =>
    rw [Nat.toDigits_eq_if hone]
    split
    · next hdigit =>
      have hread := withDigit?_toUpper_digitChar hmax 0 hdigit
      rw [mul_zero, zero_add] at hread
      rw [List.map_singleton, List.foldlM_cons, hread]
      rfl
    · next hmore =>
      have hless : n / base < n := Nat.div_lt_self (by omega) hone
      have hread := withDigit?_toUpper_digitChar hmax (n / base) (Nat.mod_lt n (by omega))
      rw [Nat.div_add_mod] at hread
      rw [List.map_append, List.foldlM_append, ih _ hless, List.map_singleton]
      show List.foldlM (withDigit? base) (n / base) _ = some n
      rw [List.foldlM_cons, hread]
      rfl

/-- The digits of a number do not begin with a zero. -/
theorem head?_toDigits_ne_zero (hone : 1 < base) (hmax : base ≤ 16) {n : Nat} (hn : n ≠ 0) :
    ((Nat.toDigits base n).map Char.toUpper).head? ≠ some '0' := by
  induction n using Nat.strongRecOn with
  | ind n ih =>
    rw [Nat.toDigits_eq_if hone]
    split
    · next hdigit =>
      rw [List.map_singleton, List.head?_cons, ne_eq, Option.some.injEq]
      exact toUpper_digitChar_ne_zero (hdigit.trans_le hmax) hn
    · next hmore =>
      have hless : n / base < n := Nat.div_lt_self (by omega) hone
      have hpos : n / base ≠ 0 := (Nat.div_pos (by omega) (by omega)).ne'
      have hne : (Nat.toDigits base (n / base)).map Char.toUpper ≠ [] :=
        mt List.map_eq_nil_iff.mp Nat.toDigits_ne_nil
      rw [List.map_append, List.head?_append_of_ne_nil _ hne]
      exact ih _ hless hpos

/-- A number is written with its digits in each of the bases that have digits of their own. -/
theorem writesInBase_digitsInBase (hbase : base = 2 ∨ base = 8 ∨ base = 16) (n : Nat) :
    WritesInBase base n (digitsInBase base n) := by
  have hone : 1 < base := by omega
  have hmax : base ≤ 16 := by omega
  rw [digitsInBase, if_pos hbase]
  refine ⟨?_, head?_toDigits_ne_zero hone hmax, ?_⟩
  · rw [readInBase?, if_neg (mt List.map_eq_nil_iff.mp Nat.toDigits_ne_nil)]
    exact foldlM_toDigits hone hmax n
  · rintro rfl
    rw [Nat.toDigits_zero]
    rfl

/-! ## The text of an integer -/

/-- The minus sign of an answer. -/
def minusSign (unicode : Bool) : Char :=
  if unicode then '−' else '-'

/-- The mark of a base. -/
def basePrefix (base : Nat) : List Char :=
  if base = 2 then ['0', 'b'] else if base = 8 then ['0', 'o'] else ['0', 'x']

/-- A text is that of an integer in the base of the settings: a minus sign just before negative
numbers, the mark of the base just where marks are asked for, and the digits of the magnitude. -/
def IsIntegerText (print : PrintSettings) (n : ℤ) (text : List Char) : Prop :=
  ∃ digits, text =
      (if n < 0 then [minusSign print.useUnicodeSigns] else []) ++
        (if print.baseDisplay = .marked then basePrefix print.base else []) ++ digits ∧
    WritesInBase print.base n.natAbs digits

variable {x : Float} {n : ℤ} {print : PrintSettings}

/-- A text that begins without a sign is written as it is. -/
theorem typographic_of_head?_ne {text : List Char} (htext : text.head? ≠ some '-') :
    typographic print text = text := by
  unfold typographic
  split
  · exact absurd rfl htext
  · rfl

/-- A sign becomes typographic before a text that does not begin with one. -/
theorem typographic_signed {text : List Char} (htext : text.head? ≠ some '-') (negative : Bool) :
    typographic print (signed negative text) =
      (if negative then [minusSign print.useUnicodeSigns] else []) ++ text := by
  cases negative with
  | true =>
    show (if print.useUnicodeSigns then '−' :: text else '-' :: text) = _
    cases hunicode : print.useUnicodeSigns <;> rfl
  | false => exact typographic_of_head?_ne htext

/-- The mark of a base is there just where marks are asked for. -/
theorem baseMark_eq (hbase : base = 2 ∨ base = 8 ∨ base = 16) (display : BaseDisplay) :
    baseMark display base = if display = .marked then basePrefix base else [] := by
  rcases hbase with rfl | rfl | rfl <;> cases display <;> rfl

/-- Digits with their mark do not begin with a sign. -/
theorem head?_marked_ne_minus (hbase : base = 2 ∨ base = 8 ∨ base = 16) (display : BaseDisplay)
    (m : Nat) : (baseMark display base ++ digitsInBase base m).head? ≠ some '-' := by
  intro hminus
  obtain ⟨hread, -, -⟩ := writesInBase_digitsInBase hbase m
  generalize digitsInBase base m = digits at hminus hread
  have hmark : (baseMark display base).head? ≠ some '-' := by
    rcases hbase with rfl | rfl | rfl <;> cases display <;> decide
  cases hhead : (baseMark display base).head? with
  | some c =>
    rw [List.head?_append, hhead, Option.some_or] at hminus
    exact hmark (hhead.trans hminus)
  | none =>
    rw [List.head?_append, hhead, Option.none_or] at hminus
    obtain ⟨others, rfl⟩ : ∃ others, digits = '-' :: others := List.head?_eq_some_iff.mp hminus
    cases hread

variable {negative : Bool} {m : Nat} {e : ℤ}

/-- The fraction of an integer is its magnitude times the denominator. -/
theorem numerator_eq_of_toRat_eq (hread : ofFloat x = .finite negative m e)
    (hvalue : toRat x = n) : numerator m e = n.natAbs * denominator e := by
  have hden : (0 : ℚ) < denominator e := by exact_mod_cast denominator_pos e
  have habs := abs_toRat_of_ofFloat hread
  rw [hvalue, eq_div_iff hden.ne'] at habs
  have hcast : ((n.natAbs * denominator e : ℕ) : ℚ) = numerator m e := by
    rw [← habs, Nat.cast_mul, Nat.cast_natAbs, Int.cast_abs]
  exact_mod_cast hcast.symm

/-- An integer is found to be one. -/
theorem isIntegral_of_toRat_eq (hread : ofFloat x = .finite negative m e) (hvalue : toRat x = n) :
    (Binary64.finite negative m e).isIntegral = true := by
  have hnum := numerator_eq_of_toRat_eq hread hvalue
  show (m % denominator e == 0) = true
  rw [beq_iff_eq, ← Nat.dvd_iff_mod_eq_zero]
  -- With a power of two that is not negative there is no denominator, and otherwise no other
  -- factor.
  rcases le_or_gt 0 e with hwhole | hfraction
  · have hone : denominator e = 1 := by rw [denominator, show (-e).toNat = 0 by omega]
    rw [hone]
    exact one_dvd m
  · have hsame : numerator m e = m := by
      rw [numerator, show e.toNat = 0 by omega]
      exact mul_one m
    rw [hsame] at hnum
    rw [hnum]
    exact dvd_mul_left _ _

/-- The whole part of an integer is its magnitude. -/
theorem wholePart_of_toRat_eq (hread : ofFloat x = .finite negative m e) (hvalue : toRat x = n) :
    (Binary64.finite negative m e).wholePart = n.natAbs := by
  show numerator m e / denominator e = n.natAbs
  rw [numerator_eq_of_toRat_eq hread hvalue, Nat.mul_div_cancel _ (denominator_pos e)]

/-- The mantissa is zero just for zero, be it negative or not. -/
theorem mantissa_eq_zero_iff (hread : ofFloat x = .finite negative m e) (hvalue : toRat x = n) :
    m = 0 ↔ n = 0 := by
  have hpower : 0 < 2 ^ e.toNat := by positivity
  have hden := denominator_pos e
  have hproduct : m * 2 ^ e.toNat = n.natAbs * denominator e :=
    numerator_eq_of_toRat_eq hread hvalue
  constructor
  · rintro rfl
    rw [zero_mul, eq_comm, Nat.mul_eq_zero] at hproduct
    omega
  · rintro rfl
    rw [Int.natAbs_zero, zero_mul, Nat.mul_eq_zero] at hproduct
    omega

/-- A sign is written just for negative integers, and so not for a negative zero. -/
theorem isNegative_of_toRat_eq (hread : ofFloat x = .finite negative m e) (hvalue : toRat x = n) :
    (negative && m != 0) = decide (n < 0) := by
  have hzero := mantissa_eq_zero_iff hread hvalue
  have hnonneg : (0 : ℚ) ≤ numerator m e / denominator e := by positivity
  rw [toRat_of_ofFloat hread] at hvalue
  rw [Bool.eq_iff_iff, Bool.and_eq_true, bne_iff_ne, decide_eq_true_iff, ne_eq, hzero]
  cases negative with
  | true =>
    rw [if_pos rfl] at hvalue
    have hle : n ≤ 0 := by exact_mod_cast (by linarith : (n : ℚ) ≤ 0)
    simp only [true_and]
    omega
  | false =>
    rw [if_neg (by decide), one_mul] at hvalue
    have hle : 0 ≤ n := by exact_mod_cast (by linarith : (0 : ℚ) ≤ n)
    simp only [Bool.false_eq_true, false_and, false_iff, not_lt]
    exact hle

/-- An integer of at most 53 bits is written in the base of the settings, whether a count of places
is asked for or not. -/
theorem isIntegerText_number (hbase : print.base = 2 ∨ print.base = 8 ∨ print.base = 16)
    (hx : x.isFinite = true) (hvalue : toRat x = n) (hsize : |n| < 2 ^ 53)
    (decimals : Option Nat) : IsIntegerText print n (number print decimals x).toList := by
  obtain ⟨negative, m, e, hread⟩ := isFinite_iff.mp hx
  have hten : print.base ≠ 10 := by omega
  have hless : n.natAbs < Nat.pow 2 53 := by
    have : ((n.natAbs : ℕ) : ℤ) < 2 ^ 53 := by rwa [Int.natCast_natAbs]
    exact_mod_cast this
  refine ⟨digitsInBase print.base n.natAbs, ?_, writesInBase_digitsInBase hbase _⟩
  rw [number, String.toList_ofList, numberChars, hread]
  unfold finiteText
  dsimp only
  rw [wholePart_of_toRat_eq hread hvalue,
    if_pos ⟨hten, isIntegral_of_toRat_eq hread hvalue, hless⟩, isNegative_of_toRat_eq hread hvalue,
    typographic_signed (head?_marked_ne_minus hbase _ _), baseMark_eq hbase, List.append_assoc]
  simp only [decide_eq_true_eq]

end Reckoner.Answer
