import Reckoner.Decimal.Plain
import Reckoner.Proofs.Decimal.Shortest
import Reckoner.Proofs.Expr.Token

/-!
# Plain number text reads back

Positional notation writes a decimal out in full, and the reader of number literals finds the same
number in it. With the shortest digits of a double, that number is in the double's interval, so the
text of a double is read as the double itself.
-/

namespace Reckoner.Decimal

open Binary64 Token

/-- The digits of a number stand for it. -/
@[simp] theorem ofDigits_digits (n : Nat) : ofDigits (digits n) = n :=
  Nat.ofDigitChars_ten_toDigits

/-- A number has digits. -/
theorem digits_ne_nil (n : Nat) : digits n ≠ [] :=
  Nat.toDigits_ne_nil

/-- The digits of a number are digits. -/
theorem isDigit_digits (n : Nat) : ∀ c ∈ digits n, c.isDigit = true :=
  fun _ hc => Nat.isDigit_of_mem_toDigits (by decide) (by decide) hc

/-- Filling up with zeros leaves digits. -/
theorem isDigit_padded (width n : Nat) : ∀ c ∈ padded width n, c.isDigit = true := by
  intro c hc
  rcases List.mem_append.mp hc with hzero | hdigit
  · rw [List.eq_of_mem_replicate hzero]
    decide
  · exact isDigit_digits n c hdigit

/-- A number that is not too long is filled up to just the width. -/
theorem length_padded {width n : Nat} (hwidth : 0 < width) (hn : n < 10 ^ width) :
    (padded width n).length = width := by
  have hlength : (digits n).length ≤ width := (Nat.length_toDigits_le_iff (by decide) hwidth).mpr hn
  rw [padded, List.length_append, List.length_replicate]
  omega

/-- Zero is filled up to as many zeros. -/
theorem padded_zero {width : Nat} (hwidth : 0 < width) :
    padded width 0 = List.replicate width '0' := by
  show List.replicate (width - 1) '0' ++ ['0'] = _
  rw [← List.replicate_succ', Nat.sub_add_cancel hwidth]

/-- Digits in front of a number that is filled up are multiplied by the power of ten. -/
theorem ofDigits_append_padded (n : Nat) {width m : Nat} (hwidth : 0 < width)
    (hm : m < 10 ^ width) : ofDigits (digits n ++ padded width m) = n * 10 ^ width + m := by
  have hlength := length_padded hwidth hm
  have hpadded : Nat.ofDigitChars 10 (padded width m) 0 = m := by
    rw [padded, Nat.ofDigitChars_append, Nat.ofDigitChars_replicate_zero, Nat.mul_zero]
    exact ofDigits_digits m
  have hn : Nat.ofDigitChars 10 (digits n) 0 = n := ofDigits_digits n
  rw [ofDigits, Nat.ofDigitChars_append, hn, Nat.ofDigitChars_eq_ofDigitChars_zero, hlength,
    hpadded, Nat.mul_comm]

/-- A decimal without a power of ten above one, as positional notation writes it out. -/
def writtenOut (d : Decimal) : Decimal :=
  ⟨d.coefficient * 10 ^ d.exponent.toNat, -((-d.exponent).toNat : ℤ)⟩

/-- Writing a decimal out does not change its number. -/
theorem value_writtenOut (d : Decimal) : d.writtenOut.value = d.value := by
  unfold writtenOut value
  dsimp only
  rw [Nat.cast_mul, Nat.cast_pow, Nat.cast_ofNat, mul_assoc, zpow_neg, zpow_natCast,
    zpow_eq_pow_div_pow 10 d.exponent, div_eq_mul_inv]

/-- A literal with digits and without an exponent is read as its decimal. -/
theorem number_of_splitNumber {text rest whole fraction : List Char} {hasPoint : Bool}
    (hwhole : whole ≠ [])
    (hsplit : splitNumber text = (⟨whole, hasPoint, fraction, none⟩, rest)) :
    Expr.Parser.number text = .ok (.number (ofParts whole fraction 0).toFloat, rest) := by
  unfold Expr.Parser.number
  rw [hsplit]
  have hdigits : (⟨whole, hasPoint, fraction, none⟩ : NumberLiteral).hasDigits = true := by
    simp [NumberLiteral.hasDigits, hwhole]
  exact if_pos hdigits

/-- Positional notation is read as the number that it writes out. -/
theorem number_positional (d : Decimal) {rest : List Char} (hrest : Parted rest) :
    Expr.Parser.number (d.positional ++ rest) = .ok (.number d.writtenOut.toFloat, rest) := by
  unfold positional withPoint writtenOut
  simp only [Nat.pow_eq]
  generalize d.coefficient * 10 ^ d.exponent.toNat = scaled
  generalize (-d.exponent).toNat = places
  split
  · next hplaces =>
    have hsplit := splitNumber_whole (isDigit_digits scaled) hrest
    rw [number_of_splitNumber (digits_ne_nil scaled) hsplit, ofParts, List.append_nil, ofDigits_digits,
      hplaces]
    rfl
  · next hplaces =>
    have hpositive : 0 < places := Nat.pos_of_ne_zero hplaces
    have hfraction : scaled % 10 ^ places < 10 ^ places := Nat.mod_lt _ (by positivity)
    have hsplit := splitNumber_fraction (isDigit_digits (scaled / 10 ^ places))
      (isDigit_padded places (scaled % 10 ^ places)) hrest
    rw [number_of_splitNumber (digits_ne_nil _) hsplit, ofParts, ofDigits_append_padded _ hpositive
      hfraction, Nat.div_add_mod', length_padded hpositive hfraction, zero_sub]

/-- The text of a finite double without a sign is read as the double. -/
theorem number_plain {x : Float} {m : Nat} {e : ℤ} (hx : ofFloat x = .finite false m e)
    {rest : List Char} (hrest : Parted rest) :
    Expr.Parser.number (plain x ++ rest) = .ok (.number x, rest) := by
  obtain ⟨hformat, hpattern⟩ := of_ofFloat_eq_finite hx
  unfold plain
  rw [hx]
  simp only [signed, Bool.false_eq_true, if_false]
  split
  · next hzero =>
    subst hzero
    have hleast : e = -1074 := hformat.leading.resolve_right (by decide)
    have hsplit := @splitNumber_whole ['0'] rest (Token.forall_mem_of_all (by decide)) hrest
    rw [number_of_splitNumber (by decide) hsplit, hpattern, hleast]
    rfl
  · next hnonzero =>
    have hm : 0 < m := Nat.pos_of_ne_zero hnonzero
    have hround := shortest_roundsTo .up hformat hm
    rw [← value_writtenOut] at hround
    rw [number_positional _ hrest, toFloat_eq hformat hm hround, ← hpattern]

/-- The digits of a number begin with one. -/
theorem digits_begin (n : Nat) (rest : List Char) :
    ∃ c others, digits n ++ rest = c :: others ∧ c.isDigit = true := by
  cases h : digits n with
  | nil => exact (Nat.toDigits_ne_nil h).elim
  | cons c others =>
    exact ⟨c, others ++ rest, rfl, isDigit_digits n c (by rw [h]; exact List.mem_cons_self)⟩

/-- Positional notation begins with a digit. -/
theorem withPoint_begins (scaled places : Nat) :
    ∃ c others, withPoint scaled places = c :: others ∧ c.isDigit = true := by
  unfold withPoint
  split
  · have h := digits_begin scaled []
    rwa [List.append_nil] at h
  · exact digits_begin _ _

/-- Positional notation is never empty. -/
theorem withPoint_ne_nil (scaled places : Nat) : withPoint scaled places ≠ [] := by
  obtain ⟨first, rest, htext, -⟩ := withPoint_begins scaled places
  rw [htext]
  exact List.cons_ne_nil first rest

/-- The text of a finite double without a sign begins with a digit. -/
theorem plain_begins {x : Float} {m : Nat} {e : ℤ} (hx : ofFloat x = .finite false m e) :
    ∃ c others, plain x = c :: others ∧ c.isDigit = true := by
  unfold plain
  rw [hx]
  simp only [signed, Bool.false_eq_true, if_false]
  split
  · exact ⟨'0', [], rfl, by decide⟩
  · exact withPoint_begins _ _

/-- A sign takes no text away. -/
theorem signed_ne_nil {text : List Char} (htext : text ≠ []) (negative : Bool) :
    signed negative text ≠ [] := by
  unfold signed
  split
  · exact List.cons_ne_nil _ _
  · exact htext

/-- Every number has a plain text. -/
theorem plain_ne_nil (x : Float) : plain x ≠ [] := by
  unfold plain
  cases Binary64.ofFloat x with
  | nan => exact fun hnone => absurd hnone (by decide)
  | infinite negative => exact signed_ne_nil (by decide) negative
  | finite negative mantissa exponent =>
    refine signed_ne_nil ?_ negative
    split
    · exact List.cons_ne_nil _ _
    · exact withPoint_ne_nil _ _

/-! ## Characters -/

/-- The characters of plain number text besides digits. -/
def plainMarks : List Char :=
  ['-', '.', 'N', 'a', 'i', 'n', 'f']

/-- A condition holds of the characters of a number with a sign, if it holds of the sign. -/
theorem forall_mem_signed {p : Char → Prop} {text : List Char} (hsign : p '-')
    (htext : ∀ c ∈ text, p c) (negative : Bool) : ∀ c ∈ signed negative text, p c := by
  unfold signed
  split
  · exact List.forall_mem_cons.mpr ⟨hsign, htext⟩
  · exact htext

/-- Positional notation has digits, and perhaps a point. -/
theorem forall_mem_withPoint {p : Char → Prop} (hdigit : ∀ c : Char, c.isDigit = true → p c)
    (hpoint : p '.') (scaled places : Nat) : ∀ c ∈ withPoint scaled places, p c := by
  have hdigits (n : Nat) : ∀ c ∈ digits n, p c := fun c hc => hdigit c (isDigit_digits n c hc)
  unfold withPoint
  split
  · exact hdigits scaled
  · refine List.forall_mem_append.mpr ⟨hdigits _, List.forall_mem_cons.mpr ⟨hpoint, fun c hc => ?_⟩⟩
    exact hdigit c (isDigit_padded _ _ c hc)

/-- A condition holds of the characters of the plain text of any number, if it holds of digits and
of a few other characters. -/
theorem forall_mem_plain {p : Char → Prop} (hdigit : ∀ c : Char, c.isDigit = true → p c)
    (hmarks : ∀ c ∈ plainMarks, p c) (x : Float) : ∀ c ∈ plain x, p c := by
  have hsign : p '-' := hmarks _ (by decide)
  have hname {name : List Char} (hname : name ⊆ plainMarks) : ∀ c ∈ name, p c :=
    fun c hc => hmarks c (hname hc)
  unfold plain
  split
  · exact hname (by decide)
  · exact forall_mem_signed hsign (hname (by decide)) _
  · refine forall_mem_signed hsign ?_ _
    split
    · exact List.forall_mem_singleton.mpr (hdigit _ (by decide))
    · exact forall_mem_withPoint hdigit (hmarks _ (by decide)) _ _

end Reckoner.Decimal
