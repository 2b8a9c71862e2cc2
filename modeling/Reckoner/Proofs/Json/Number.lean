import Reckoner.Json.Number
import Reckoner.Proofs.Decimal.PlainText
import Reckoner.Proofs.Decimal.Rounded
import Reckoner.Proofs.Expr.Lexeme

/-!
# The text of a number is a literal

Whatever number the interchange format holds, the text that it writes is one number literal, with a
sign in front where the number is negative. The literal denotes an integer exactly, and a decimal in
the interval of a double, so that the literal is read as the double nearest to the number.
-/

namespace Reckoner

open Binary64 Token Decimal

/-! ## Texts that are literals -/

/-- A text is a number literal, and the literal denotes the number. -/
def WritesNumber (text : List Char) (q : ℚ) : Prop :=
  ∃ literal : NumberLiteral, literal.WellFormed ∧ literal.text = text ∧ literal.decimal.value = q

section texts

variable {whole fraction : List Char} {exponent : Option (List Char × List Char)}

/-- The power of ten that an exponent denotes, if there is one. -/
def exponentValue : Option (List Char × List Char) → ℤ
  | none => 0
  | some (mark, digits) =>
      if mark.contains '-' then -(ofDigits digits : ℤ) else ofDigits digits

/-- Digits and an exponent are a literal. -/
theorem writesNumber_whole (hwhole : ∀ c ∈ whole, c.isDigit = true) (hne : whole ≠ [])
    (hexponent : IsExponent exponent) :
    WritesNumber (whole ++ exponentText exponent)
      (ofParts whole [] (exponentValue exponent)).value := by
  refine ⟨⟨whole, false, [], exponent⟩, ⟨hwhole, by simp, fun _ => rfl, ?_, hexponent⟩, ?_, rfl⟩
  · simp [NumberLiteral.hasDigits, hne]
  · show whole ++ [] ++ exponentText exponent = _
    rw [List.append_nil]

/-- Digits around a point and an exponent are a literal. -/
theorem writesNumber_fraction (hwhole : ∀ c ∈ whole, c.isDigit = true) (hne : whole ≠ [])
    (hfraction : ∀ c ∈ fraction, c.isDigit = true) (hexponent : IsExponent exponent) :
    WritesNumber (whole ++ '.' :: fraction ++ exponentText exponent)
      (ofParts whole fraction (exponentValue exponent)).value := by
  refine ⟨⟨whole, true, fraction, exponent⟩, ⟨hwhole, hfraction, by simp, ?_, hexponent⟩, rfl, rfl⟩
  simp [NumberLiteral.hasDigits, hne]

end texts

/-- An exponent may be left out. -/
theorem isExponent_none : IsExponent none := by
  rintro _ _ ⟨⟩

/-- The digits of a natural number are a literal for it. -/
theorem writesNumber_digits (n : Nat) : WritesNumber (digits n) n := by
  have hwrites := writesNumber_whole (isDigit_digits n) (digits_ne_nil n) isExponent_none
  rw [exponentText, List.append_nil] at hwrites
  convert hwrites using 1
  simp [ofParts, exponentValue, Decimal.value]

/-- Positional notation is a literal for the decimal. -/
theorem writesNumber_positional (d : Decimal) : WritesNumber d.positional d.value := by
  rw [← value_writtenOut]
  unfold positional withPoint writtenOut
  simp only [Nat.pow_eq]
  generalize d.coefficient * 10 ^ d.exponent.toNat = scaled
  generalize (-d.exponent).toNat = places
  split
  · next hplaces =>
    have hwrites := writesNumber_digits scaled
    convert hwrites using 1
    simp [hplaces, Decimal.value]
  · next hplaces =>
    have hpositive : 0 < places := Nat.pos_of_ne_zero hplaces
    have hfraction : scaled % 10 ^ places < 10 ^ places := Nat.mod_lt _ (by positivity)
    have hwrites := writesNumber_fraction (isDigit_digits (scaled / 10 ^ places)) (digits_ne_nil _)
      (isDigit_padded places (scaled % 10 ^ places)) isExponent_none
    rw [exponentText, List.append_nil, ofParts, ofDigits_append_padded _ hpositive hfraction,
      Nat.div_add_mod', length_padded hpositive hfraction, exponentValue, zero_sub] at hwrites
    exact hwrites

/-- A fraction of zero may follow a natural number. -/
theorem writesNumber_digits_zero (n : Nat) : WritesNumber (digits n ++ ".0".toList) n := by
  have hzero : ".0".toList = '.' :: padded 1 0 := rfl
  have hwrites := writesNumber_fraction (isDigit_digits n) (digits_ne_nil n) (isDigit_padded 1 0)
    isExponent_none
  have hdigits : ofDigits (digits n ++ padded 1 0) = n * 10 ^ 1 + 0 :=
    ofDigits_append_padded n Nat.one_pos (by decide)
  have hlength : (padded 1 0).length = 1 := rfl
  have hvalue : (ofParts (digits n) (padded 1 0) (exponentValue none)).value = n := by
    rw [ofParts, hdigits, hlength, exponentValue, Decimal.value]
    simp
  rwa [exponentText, List.append_nil, hvalue, ← hzero] at hwrites

namespace JsonNumber

/-- The exponent that is written for a power of ten. -/
def writtenExponent (power : ℤ) : List Char × List Char :=
  (['e', if power < 0 then '-' else '+'], digits power.natAbs)

theorem isExponent_writtenExponent (power : ℤ) : IsExponent (some (writtenExponent power)) := by
  rintro mark own ⟨⟩
  refine ⟨?_, digits_ne_nil _, isDigit_digits _⟩
  split <;> decide

@[simp] theorem exponentValue_writtenExponent (power : ℤ) :
    exponentValue (some (writtenExponent power)) = power := by
  simp only [exponentValue, writtenExponent, ofDigits_digits]
  rcases lt_or_ge power 0 with hnegative | hnonneg
  · rw [if_pos hnegative, if_pos (by decide)]
    omega
  · rw [if_neg hnonneg.not_gt, if_neg (by decide)]
    omega

/-- The form with an exponent is a literal for the decimal. -/
theorem writesNumber_exponentForm (d : Decimal) : WritesNumber (exponentForm d) d.value := by
  have hform (mantissa : List Char) : mantissa ++ 'e' ::
      (if d.leadingExponent < 0 then '-' else '+') :: digits d.leadingExponent.natAbs =
        mantissa ++ exponentText (some (writtenExponent d.leadingExponent)) := rfl
  have hdigits := isDigit_digits d.coefficient
  have hnumber := ofDigits_digits d.coefficient
  have hlead : d.leadingExponent = d.exponent + (digits d.coefficient).length - 1 := rfl
  unfold exponentForm
  dsimp only
  rw [hform]
  -- The digits after the first one stand behind the point, if there are any.
  cases hwritten : digits d.coefficient with
  | nil => exact absurd hwritten (digits_ne_nil _)
  | cons first others =>
    rw [hwritten] at hdigits hnumber hlead
    have hvalue : (ofParts [first] others d.leadingExponent).value = d.value := by
      rw [ofParts, List.singleton_append, hnumber, Decimal.value, Decimal.value, hlead]
      congr 2
      push_cast [List.length_cons]
      omega
    obtain ⟨hfirst, hothers⟩ := List.forall_mem_cons.mp hdigits
    cases others with
    | nil =>
      have hwrites := writesNumber_whole (List.forall_mem_singleton.mpr hfirst)
        (List.cons_ne_nil first []) (isExponent_writtenExponent d.leadingExponent)
      rwa [exponentValue_writtenExponent, hvalue] at hwrites
    | cons second others =>
      have hwrites := writesNumber_fraction (List.forall_mem_singleton.mpr hfirst)
        (List.cons_ne_nil first []) hothers (isExponent_writtenExponent d.leadingExponent)
      rwa [exponentValue_writtenExponent, hvalue] at hwrites

/-- A decimal is written as a literal for it. -/
theorem writesNumber_floatForm (d : Decimal) : WritesNumber (floatForm d) d.value := by
  unfold floatForm
  split
  · split
    · next hexponent =>
      have hplaces : (-d.exponent).toNat = 0 := by omega
      have hpositional : d.positional = digits (d.coefficient * 10 ^ d.exponent.toNat) := by
        rw [positional, withPoint, if_pos hplaces]
        rfl
      have hvalue : d.value = (d.coefficient * 10 ^ d.exponent.toNat : ℕ) := by
        rw [← value_writtenOut, writtenOut, Decimal.value, hplaces]
        simp
      rw [hpositional, hvalue]
      exact writesNumber_digits_zero _
    · exact writesNumber_positional d
  · exact writesNumber_exponentForm d

/-! ## What the literal of a number is read as -/

/-- A number that can be held: an integer of 64 bits or a finite double. -/
def IsHeld : JsonNumber → Prop
  | .natural n => n < 2 ^ 64
  | .negative n => 0 < n ∧ n ≤ 2 ^ 63
  | .float x => x.isFinite = true

/-- The number itself. -/
def value : JsonNumber → ℚ
  | .natural n => n
  | .negative n => -n
  | .float x => toRat x

/-- An integer of 64 bits is converted to a double without a sign. -/
theorem ofFloat_ofNat {n : Nat} (hn : n < 2 ^ 64) :
    ∃ m e, ofFloat (Float.ofNat n) = .finite false m e := by
  rcases Nat.eq_zero_or_pos n with rfl | hpos
  · exact ⟨0, -1074, rfl⟩
  · have hbound : |(n : ℚ)| ≤ 2 ^ 64 := by
      rw [Nat.abs_cast]
      exact_mod_cast hn.le
    have hrounded := isRounded_ofNat n
    obtain ⟨hfinite, -⟩ := hrounded.of_abs_le_two_pow (by decide : 64 < 1024) hbound
    have hone : (1 : ℚ) ≤ toRat (Float.ofNat n) := by
      rw [hrounded.toRat_eq hfinite]
      refine (isShort_two_pow 0).le_rounded ?_
      exact_mod_cast hpos
    obtain ⟨negative, m, e, hread⟩ := isFinite_iff.mp hfinite
    cases negative with
    | false => exact ⟨m, e, hread⟩
    | true =>
      have hnonneg : 0 ≤ magnitude m e := by unfold magnitude; positivity
      rw [toRat, hread] at hone
      simp only [Binary64.value, if_true] at hone
      linarith

/-- A number that is held is a double that is nearest to it; of two doubles that are equally near
it is the one that rounding takes. -/
theorem isRounded_toFloat {n : JsonNumber} (hheld : n.IsHeld) :
    n.toFloat.isFinite = true ∧ IsRounded n.value n.toFloat := by
  have hinteger {k : Nat} (hk : k < 2 ^ 64) : (Float.ofNat k).isFinite = true := by
    obtain ⟨m, e, hread⟩ := ofFloat_ofNat hk
    exact isFinite_iff.mpr ⟨_, _, _, hread⟩
  cases n with
  | natural k => exact ⟨hinteger hheld, isRounded_ofNat k⟩
  | negative k =>
    have hfinite := hinteger (hheld.2.trans_lt (by decide))
    obtain ⟨hnegated, hvalue⟩ := toRat_neg hfinite
    refine ⟨hnegated, isRounded_of_toRat_eq hnegated ?_⟩
    show toRat (-Float.ofNat k) = rounded (-k)
    rw [hvalue, rounded_neg, (isRounded_ofNat k).toRat_eq hfinite]
  | float x =>
    exact ⟨hheld, isRounded_of_toRat_eq hheld (isShort_toRat x).rounded_eq.symm⟩

/-- The digits of an integer of 64 bits are a literal that is read as its double. -/
theorem exists_literal_ofNat {k : Nat} (hk : k < 2 ^ 64) :
    ∃ literal : NumberLiteral, literal.WellFormed ∧ literal.text = digits k ∧
      literal.decimal.toFloat = Float.ofNat k := by
  obtain ⟨literal, hliteral, htext, hvalue⟩ := writesNumber_digits k
  obtain ⟨m, e, hread⟩ := ofFloat_ofNat hk
  refine ⟨literal, hliteral, htext, toFloat_eq_of_isRounded hread ?_⟩
  rw [hvalue]
  exact isRounded_ofNat k

/-- The text of a double without a sign is a literal that is read as the double. -/
theorem exists_literal_magnitude {x : Float} {m : Nat} {e : ℤ}
    (hx : ofFloat x = .finite false m e) :
    ∃ literal : NumberLiteral, literal.WellFormed ∧
      literal.text = (if m = 0 then "0.0".toList else floatForm (shortest .even m e)) ∧
        literal.decimal.toFloat = x := by
  split
  · next hzero =>
    obtain ⟨literal, hliteral, htext, hvalue⟩ := writesNumber_digits_zero 0
    refine ⟨literal, hliteral, htext, toFloat_eq_of_isRounded hx ?_⟩
    have hread : toRat x = 0 := by
      rw [toRat, hx, hzero]
      simp [Binary64.value, magnitude]
    rw [hvalue, Nat.cast_zero]
    refine isRounded_of_toRat_eq (isFinite_iff.mpr ⟨_, _, _, hx⟩) ?_
    rw [hread, rounded_zero]
  · next hnonzero =>
    obtain ⟨literal, hliteral, htext, hvalue⟩ := writesNumber_floatForm (shortest .even m e)
    obtain ⟨hformat, hpattern⟩ := of_ofFloat_eq_finite hx
    have hm : 0 < m := Nat.pos_of_ne_zero hnonzero
    have hround := shortest_roundsTo .even hformat hm
    rw [← hvalue] at hround
    exact ⟨literal, hliteral, htext, (toFloat_eq hformat hm hround).trans hpattern.symm⟩

/-- The text of a finite double is a literal behind the sign, and with the sign it is read as the
double. -/
theorem exists_literal_ofFloat {x : Float} {negative : Bool} {m : Nat} {e : ℤ}
    (hx : ofFloat x = .finite negative m e) :
    ∃ literal : NumberLiteral, literal.WellFormed ∧ floatText x = signed negative literal.text ∧
      (if negative then -literal.decimal.toFloat else literal.decimal.toFloat) = x := by
  obtain ⟨y, hy, hsigned⟩ :
      ∃ y, ofFloat y = .finite false m e ∧ (if negative then -y else y) = x := by
    cases negative with
    | false => exact ⟨x, hx, rfl⟩
    | true =>
      exact ⟨-x, ofFloat_neg hx, neg_neg_of_isFinite (isFinite_iff.mpr ⟨_, _, _, hx⟩)⟩
  obtain ⟨literal, hliteral, htext, hread⟩ := exists_literal_magnitude hy
  refine ⟨literal, hliteral, ?_, ?_⟩
  · rw [floatText, hx, htext]
  · rw [hread, hsigned]

/-- The text of a number that is held is a literal, with a sign in front or without, and the literal
is read as the double of the number. -/
theorem exists_literal {n : JsonNumber} (hheld : n.IsHeld) :
    ∃ negative, ∃ literal : NumberLiteral, literal.WellFormed ∧
      n.text.toList = signed negative literal.text ∧
      n.toFloat = if negative then -literal.decimal.toFloat else literal.decimal.toFloat := by
  cases n with
  | natural k =>
    obtain ⟨literal, hliteral, htext, hread⟩ := exists_literal_ofNat hheld
    refine ⟨false, literal, hliteral, ?_, hread.symm⟩
    rw [JsonNumber.text, String.toList_ofList, htext]
    rfl
  | negative k =>
    obtain ⟨literal, hliteral, htext, hread⟩ :=
      exists_literal_ofNat (hheld.2.trans_lt (by decide : 2 ^ 63 < 2 ^ 64))
    refine ⟨true, literal, hliteral, ?_, congrArg Neg.neg hread.symm⟩
    rw [JsonNumber.text, String.toList_ofList, htext]
    rfl
  | float x =>
    obtain ⟨negative, m, e, hx⟩ := isFinite_iff.mp hheld
    obtain ⟨literal, hliteral, htext, hread⟩ := exists_literal_ofFloat hx
    refine ⟨negative, literal, hliteral, ?_, hread.symm⟩
    rw [JsonNumber.text, String.toList_ofList, htext]

-- The sign of an exponent is always written, and a single digit has no point after it.
example : (float (-1.25e21)).text = "-1.25e+21" ∧ (float 5e-324).text = "5e-324" := by
  decide +kernel

end JsonNumber

end Reckoner
