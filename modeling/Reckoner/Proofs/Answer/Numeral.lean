import Mathlib.Data.List.DropRight
import Reckoner.Decimal.Literal
import Reckoner.Proofs.Answer.Text

/-!
# The number that a text denotes

A number text can have separators between its digits, a sign, a point and a power of ten.
`denoted` reads such a text back without any regard to the settings or to the double that it was
written for. This file shows what it finds in positional notation: the zeros that are taken off the
end and the separators that are put in make no difference to it.
-/

namespace Reckoner.Answer

open Decimal

/-! ## Reading a text -/

/-- What parts the groups of digits. -/
def isSeparator (c : Char) : Bool :=
  c == ' ' || c == '\u2009'

/-- A natural number. -/
def readNatural? (text : List Char) : Option Nat :=
  if text ≠ [] ∧ text.all Char.isDigit then some (ofDigits text) else none

/-- An integer with its sign. -/
def readInteger? : List Char → Option ℤ
  | '-' :: text => (readNatural? text).map fun n : Nat => -(n : ℤ)
  | text => (readNatural? text).map Nat.cast

/-- The power of ten behind a numeral, none being the zeroth. -/
def readPower? : List Char → Option ℤ
  | [] => some 0
  | 'e' :: power => readInteger? power
  | 'E' :: power => readInteger? power
  | '*' :: '1' :: '0' :: '^' :: power => readInteger? power
  | '×' :: '1' :: '0' :: '^' :: power => readInteger? power
  | _ => none

/-- Whether a character belongs to a numeral without a power of ten. -/
def isNumeralChar (c : Char) : Bool :=
  c.isDigit || c == '.'

/-- A numeral without a sign: digits, perhaps a point and more of them, and a power of ten. -/
def readMagnitude? (text : List Char) : Option ℚ :=
  let numeral := text.takeWhile isNumeralChar
  let whole := numeral.takeWhile (· != '.')
  let fraction := (numeral.dropWhile (· != '.')).drop 1
  if whole ≠ [] ∧ (whole ++ fraction).all Char.isDigit then
    (readPower? (text.dropWhile isNumeralChar)).map fun power =>
      (ofParts whole fraction power).value
  else none

/-- The number that a text denotes: without its separators, it is a numeral with its sign. -/
def denoted (text : List Char) : Option ℚ :=
  match text.filter (!isSeparator ·) with
  | '-' :: magnitude => (readMagnitude? magnitude).map (-·)
  | '−' :: magnitude => (readMagnitude? magnitude).map (-·)
  | magnitude => readMagnitude? magnitude

/-- The digits of a natural number are read as it. -/
theorem readNatural?_digits (n : Nat) : readNatural? (digits n) = some n := by
  have hdigits : digits n ≠ [] ∧ (digits n).all Char.isDigit = true :=
    ⟨digits_ne_nil n, List.all_eq_true.mpr (isDigit_digits n)⟩
  rw [readNatural?, if_pos hdigits, ofDigits_digits]

/-- A text that begins with a digit has no sign. -/
theorem readInteger?_of_isDigit {c : Char} (hc : c.isDigit = true) (rest : List Char) :
    readInteger? (c :: rest) = (readNatural? (c :: rest)).map Nat.cast := by
  unfold readInteger?
  split
  · next heq =>
    obtain ⟨rfl, -⟩ := List.cons.inj heq
    exact absurd hc (by decide)
  · rfl

/-- The text of an integer is read as it. -/
theorem readInteger?_integerText (n : ℤ) : readInteger? (integerText n) = some n := by
  unfold integerText signed
  rcases lt_or_ge n 0 with hneg | hnonneg
  · rw [decide_eq_true hneg, if_pos rfl, readInteger?, readNatural?_digits, Option.map_some]
    show some (-(n.natAbs : ℤ)) = some n
    exact congrArg some (by omega)
  · rw [decide_eq_false (not_lt.mpr hnonneg), if_neg (by decide)]
    obtain ⟨c, rest, htext, hc⟩ := digits_begin n.natAbs []
    rw [List.append_nil] at htext
    rw [htext, readInteger?_of_isDigit hc, ← htext, readNatural?_digits, Option.map_some]
    show some (n.natAbs : ℤ) = some n
    exact congrArg some (by omega)

/-! ## Numerals -/

/-- A text has these digits before the point and behind it. Without digits behind it there is no
point. -/
structure IsNumeral (text whole fraction : List Char) : Prop where
  text_eq : text = if fraction = [] then whole else whole ++ '.' :: fraction
  whole_ne_nil : whole ≠ []
  isDigit : ∀ c ∈ whole ++ fraction, c.isDigit = true

variable {text whole fraction : List Char}

/-- A digit is no point. -/
theorem ne_point_of_isDigit {c : Char} (hc : c.isDigit = true) : (c != '.') = true := by
  rw [bne_iff_ne]
  rintro rfl
  exact absurd hc (by decide)

/-- A digit is no separator. -/
theorem isSeparator_of_isDigit {c : Char} (hc : c.isDigit = true) : isSeparator c = false := by
  by_contra hseparator
  rw [Bool.not_eq_false, isSeparator, Bool.or_eq_true, beq_iff_eq, beq_iff_eq] at hseparator
  rcases hseparator with rfl | rfl <;> exact absurd hc (by decide)

theorem IsNumeral.isDigit_whole (h : IsNumeral text whole fraction) :
    ∀ c ∈ whole, c.isDigit = true :=
  fun c hc => h.isDigit c (List.mem_append_left fraction hc)

/-- A numeral begins with a digit. -/
theorem IsNumeral.begins (h : IsNumeral text whole fraction) :
    ∃ c rest, text = c :: rest ∧ c.isDigit = true := by
  obtain ⟨c, rest, hwhole⟩ := List.exists_cons_of_ne_nil h.whole_ne_nil
  have hc : c.isDigit = true := h.isDigit_whole c (by rw [hwhole]; exact List.mem_cons_self)
  rw [h.text_eq, hwhole]
  split
  · exact ⟨c, rest, rfl, hc⟩
  · exact ⟨c, rest ++ '.' :: fraction, rfl, hc⟩

/-- All characters of a numeral belong to it. -/
theorem IsNumeral.isNumeralChar (h : IsNumeral text whole fraction) :
    ∀ c ∈ text, isNumeralChar c = true := by
  intro c hc
  unfold Answer.isNumeralChar
  rw [Bool.or_eq_true, beq_iff_eq]
  rw [h.text_eq] at hc
  split at hc
  · exact .inl (h.isDigit_whole c hc)
  · rcases List.mem_append.mp hc with hwhole | htail
    · exact .inl (h.isDigit_whole c hwhole)
    · rcases List.mem_cons.mp htail with rfl | hfraction
      · exact .inr rfl
      · exact .inl (h.isDigit c (List.mem_append_right whole hfraction))

/-- A numeral has no separators. -/
theorem IsNumeral.not_isSeparator (h : IsNumeral text whole fraction) :
    ∀ c ∈ text, isSeparator c = false := by
  intro c hc
  have hchar := h.isNumeralChar c hc
  rw [Answer.isNumeralChar, Bool.or_eq_true, beq_iff_eq] at hchar
  rcases hchar with hdigit | rfl
  · exact isSeparator_of_isDigit hdigit
  · decide

/-- The point parts a numeral. -/
theorem IsNumeral.split (h : IsNumeral text whole fraction) :
    text.takeWhile (· != '.') = whole ∧ (text.dropWhile (· != '.')).drop 1 = fraction := by
  have hwhole : ∀ c ∈ whole, (c != '.') = true :=
    fun c hc => ne_point_of_isDigit (h.isDigit_whole c hc)
  rw [h.text_eq]
  split
  · next hnone =>
    rw [List.takeWhile_eq_self_iff.mpr hwhole, List.dropWhile_eq_nil_iff.mpr hwhole, hnone]
    exact ⟨rfl, rfl⟩
  · rw [List.takeWhile_append_of_pos hwhole, List.dropWhile_append_of_pos hwhole]
    exact ⟨List.append_nil whole, rfl⟩

/-- A numeral and a power of ten behind it are read as the decimal that they are. -/
theorem IsNumeral.readMagnitude?_append (h : IsNumeral text whole fraction)
    {rest : List Char} (hrest : ∀ c ∈ rest.head?, Answer.isNumeralChar c = false) :
    readMagnitude? (text ++ rest) =
      (readPower? rest).map fun power => (ofParts whole fraction power).value := by
  have htake : rest.takeWhile Answer.isNumeralChar = [] ∧
      rest.dropWhile Answer.isNumeralChar = rest := by
    cases rest with
    | nil => exact ⟨rfl, rfl⟩
    | cons c others =>
      have hc := hrest c rfl
      exact ⟨List.takeWhile_cons_of_neg (by simp [hc]), List.dropWhile_cons_of_neg (by simp [hc])⟩
  obtain ⟨hwhole, hfraction⟩ := h.split
  unfold readMagnitude?
  rw [List.takeWhile_append_of_pos h.isNumeralChar, List.dropWhile_append_of_pos h.isNumeralChar,
    htake.1, htake.2, List.append_nil]
  dsimp only
  rw [hwhole, hfraction]
  exact if_pos ⟨h.whole_ne_nil, List.all_eq_true.mpr h.isDigit⟩

/-! ## Positional notation -/

/-- A text in positional notation denotes a number, at every power of ten that may stand behind
it. -/
def DenotesAt (text : List Char) (q : ℚ) : Prop :=
  ∃ whole fraction, IsNumeral text whole fraction ∧
    ∀ power, (ofParts whole fraction power).value = q * 10 ^ power

/-- The decimal of two parts, as a number. -/
theorem value_ofParts (whole fraction : List Char) (power : ℤ) :
    (ofParts whole fraction power).value =
      ofDigits (whole ++ fraction) / 10 ^ fraction.length * 10 ^ power := by
  rw [value, ofParts, zpow_sub₀ (by norm_num), zpow_natCast]
  ring

/-- Positional notation denotes the scaled number. -/
theorem denotesAt_withPoint (scaled places : Nat) :
    DenotesAt (withPoint scaled places) (scaled / 10 ^ places) := by
  unfold withPoint
  split
  · next hnone =>
    refine ⟨digits scaled, [], ⟨rfl, digits_ne_nil scaled, ?_⟩, fun power => ?_⟩
    · rw [List.append_nil]
      exact isDigit_digits scaled
    · rw [value_ofParts, List.append_nil, ofDigits_digits, hnone]
      rfl
  · next hsome =>
    have hplaces : 0 < places := Nat.pos_of_ne_zero hsome
    have hfraction : scaled % 10 ^ places < 10 ^ places := Nat.mod_lt _ (by positivity)
    have hlength := length_padded hplaces hfraction
    have hne : padded places (scaled % 10 ^ places) ≠ [] :=
      List.ne_nil_of_length_pos (by rwa [hlength])
    refine ⟨digits (scaled / 10 ^ places), padded places (scaled % 10 ^ places),
      ⟨(if_neg hne).symm, digits_ne_nil _, fun c hc => ?_⟩, fun power => ?_⟩
    · rcases List.mem_append.mp hc with hbefore | hbehind
      · exact isDigit_digits _ c hbefore
      · exact isDigit_padded _ _ c hbehind
    · rw [value_ofParts, ofDigits_append_padded _ hplaces hfraction, Nat.div_add_mod', hlength]

/-- Taking zeros off the end of a fraction, and then the point if it is the last character. -/
theorem exists_trimmed (hdigit : ∀ c ∈ whole ++ fraction, c.isDigit = true) :
    ∃ kept zeros, fraction = kept ++ List.replicate zeros '0' ∧
      ((whole ++ '.' :: fraction).rdropWhile (· == '0')).rdropWhile (· == '.') =
        if kept = [] then whole else whole ++ '.' :: kept := by
  induction fraction using List.reverseRecOn with
  | nil =>
    refine ⟨[], 0, rfl, ?_⟩
    have hpoint : ('.' == '0') = false := by decide
    rw [if_pos rfl, List.rdropWhile_concat, hpoint, if_neg (by decide), List.rdropWhile_concat,
      beq_self_eq_true, if_pos rfl, List.rdropWhile_eq_self_iff]
    intro hne hlast
    have hc := hdigit _ (List.mem_append_left [] (List.getLast_mem hne))
    rw [beq_iff_eq.mp hlast] at hc
    exact absurd hc (by decide)
  | append_singleton initial c ih =>
    have hc : c.isDigit = true := hdigit c (by simp)
    have htext : whole ++ '.' :: (initial ++ [c]) = (whole ++ '.' :: initial) ++ [c] := by simp
    rw [htext, List.rdropWhile_concat]
    split
    · next hzero =>
      obtain ⟨kept, zeros, hinitial, htrimmed⟩ := ih fun c' hc' => hdigit c' (by
        rw [← List.append_assoc]
        exact List.mem_append_left [c] hc')
      refine ⟨kept, zeros + 1, ?_, htrimmed⟩
      rw [List.replicate_succ', ← List.append_assoc, ← hinitial, beq_iff_eq.mp hzero]
    · next hnonzero =>
      refine ⟨initial ++ [c], 0, (List.append_nil _).symm, ?_⟩
      have hpoint : (c == '.') = false := by
        have := ne_point_of_isDigit hc
        simpa [bne] using this
      rw [List.rdropWhile_concat, hpoint, if_neg (by decide), if_neg (by simp), htext]

/-- Zeros at the end of a fraction make no difference. -/
theorem value_ofParts_append_zeros (whole kept : List Char) (zeros : Nat) (power : ℤ) :
    (ofParts whole (kept ++ List.replicate zeros '0') power).value =
      (ofParts whole kept power).value := by
  rw [value_ofParts, value_ofParts, ← List.append_assoc, ofDigits, Nat.ofDigitChars_append,
    Nat.ofDigitChars_replicate_zero, List.length_append, List.length_replicate, pow_add, ofDigits]
  push_cast
  field_simp

/-- A numeral denotes the same number when the zeros at its end are taken off. -/
theorem DenotesAt.trimFraction {q : ℚ} (h : DenotesAt text q) :
    DenotesAt (trimFraction text) q := by
  obtain ⟨whole, fraction, hnumeral, hvalue⟩ := h
  have hdef : Answer.trimFraction text = if text.contains '.' then
      (text.rdropWhile (· == '0')).rdropWhile (· == '.') else text := by
    simp [Answer.trimFraction, List.rdropWhile]
  by_cases hnone : fraction = []
  · -- Without a fraction there is no point, and the text is kept.
    have hwhole : text = whole := by rw [hnumeral.text_eq, if_pos hnone]
    have hpoint : text.contains '.' = false := by
      rw [hwhole, ← Bool.not_eq_true, List.contains_iff_mem]
      exact fun hmem => absurd (hnumeral.isDigit_whole '.' hmem) (by decide)
    rw [hdef, hpoint, if_neg (by decide)]
    exact ⟨whole, fraction, hnumeral, hvalue⟩
  · have htext : text = whole ++ '.' :: fraction := by rw [hnumeral.text_eq, if_neg hnone]
    obtain ⟨kept, zeros, rfl, htrimmed⟩ := exists_trimmed hnumeral.isDigit
    have hpoint : text.contains '.' = true := by
      rw [htext, List.contains_iff_mem]
      exact List.mem_append_right whole List.mem_cons_self
    refine ⟨whole, kept, ⟨?_, hnumeral.whole_ne_nil, fun c hc => hnumeral.isDigit c ?_⟩,
      fun power => ?_⟩
    · rw [hdef, hpoint, if_pos rfl, htext, htrimmed]
    · rw [← List.append_assoc]
      exact List.mem_append_left _ hc
    · rw [← hvalue, value_ofParts_append_zeros]

/-! ## Groups and signs -/

/-- The separators of a grouped text, taken out, leave the text. -/
theorem filter_groupedRun {separator : Char} (hseparator : isSeparator separator = true)
    (text : List Char) : (groupedRun separator text).filter (!isSeparator ·) =
      text.filter (!isSeparator ·) := by
  fun_induction groupedRun separator text with
  | case1 => rfl
  | case2 last => rfl
  | case3 digit rest _ _ ih => simp [List.filter_cons, hseparator, ih]
  | case4 digit rest _ _ ih => simp [List.filter_cons, ih]

theorem isSeparator_groupSeparator (unicode : Bool) :
    isSeparator (groupSeparator unicode) = true := by
  cases unicode <;> decide

theorem filter_groupedNumeral {separator : Char} (hseparator : isSeparator separator = true)
    (text : List Char) : (groupedNumeral separator text).filter (!isSeparator ·) =
      text.filter (!isSeparator ·) := by
  rw [groupedNumeral, List.filter_append, filter_groupedRun hseparator, ← List.filter_append,
    List.takeWhile_append_dropWhile]

/-- Grouping adds nothing but separators. -/
theorem filter_grouped (print : PrintSettings) (text : List Char) :
    (grouped print text).filter (!isSeparator ·) = text.filter (!isSeparator ·) := by
  have hseparator := isSeparator_groupSeparator print.useUnicodeSigns
  unfold grouped
  split
  · rfl
  · dsimp only
    split
    · rw [List.filter_cons, List.filter_cons, filter_groupedNumeral hseparator]
    · exact filter_groupedNumeral hseparator text

/-- Groups make no difference to the number. -/
@[simp] theorem denoted_grouped (print : PrintSettings) (text : List Char) :
    denoted (grouped print text) = denoted text := by
  unfold denoted
  rw [filter_grouped]

/-- Neither does the kind of the minus sign. -/
@[simp] theorem denoted_typographic (print : PrintSettings) (text : List Char) :
    denoted (typographic print text) = denoted text := by
  unfold typographic
  split
  · next rest =>
    split
    · unfold denoted
      rw [List.filter_cons_of_pos (by decide), List.filter_cons_of_pos (by decide)]
      rfl
    · rfl
  · rfl

/-- A numeral and a power of ten behind it, with a sign, denote the number. -/
theorem DenotesAt.denoted_signed {q : ℚ} (h : DenotesAt text q) (negative : Bool)
    {rest : List Char} {power : ℤ} (hseparator : ∀ c ∈ rest, isSeparator c = false)
    (hrest : ∀ c ∈ rest.head?, isNumeralChar c = false) (hpower : readPower? rest = some power) :
    denoted (signed negative (text ++ rest)) =
      some ((if negative then -1 else 1) * (q * 10 ^ power)) := by
  obtain ⟨whole, fraction, hnumeral, hvalue⟩ := h
  have hread := hnumeral.readMagnitude?_append hrest
  have hkept : (text ++ rest).filter (!isSeparator ·) = text ++ rest := by
    refine List.filter_eq_self.mpr fun c hc => ?_
    rw [Bool.not_eq_true']
    rcases List.mem_append.mp hc with htext | hbehind
    · exact hnumeral.not_isSeparator c htext
    · exact hseparator c hbehind
  rw [hpower, Option.map_some, hvalue] at hread
  cases negative with
  | true =>
    have hsign : denoted ('-' :: (text ++ rest)) = (readMagnitude? (text ++ rest)).map (-·) := by
      unfold denoted
      rw [List.filter_cons_of_pos (by decide), hkept]
      rfl
    rw [signed, if_pos rfl, hsign, hread, Option.map_some, if_pos rfl, neg_one_mul]
  | false =>
    obtain ⟨c, others, htext, hc⟩ := hnumeral.begins
    have hbare : denoted (text ++ rest) = readMagnitude? (text ++ rest) := by
      unfold denoted
      rw [hkept, htext, List.cons_append]
      split
      · next heq =>
        obtain ⟨rfl, -⟩ := List.cons.inj heq
        exact absurd hc (by decide)
      · next heq =>
        obtain ⟨rfl, -⟩ := List.cons.inj heq
        exact absurd hc (by decide)
      · rfl
    rw [signed, if_neg (by decide), hbare, hread, if_neg (by decide), one_mul]

/-- A numeral with a sign and without a power of ten denotes its number. -/
theorem DenotesAt.denoted_signed_bare {q : ℚ} (h : DenotesAt text q) (negative : Bool) :
    denoted (signed negative text) = some ((if negative then -1 else 1) * q) := by
  have hdenoted := h.denoted_signed negative (List.forall_mem_nil _) nofun rfl
  rwa [List.append_nil, zpow_zero, mul_one] at hdenoted

end Reckoner.Answer
