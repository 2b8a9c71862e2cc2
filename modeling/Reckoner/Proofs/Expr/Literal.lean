import Reckoner.Proofs.Expr.Lexeme

/-!
# Number literals as texts

What is cut off as a number literal is cut off again from its own text, with nothing left over, so
the text alone decides the value. Digits and the marks of exponents take one byte for each
character.
-/

namespace Reckoner.Token

/-- The value of a text that is all of a number literal. -/
def floatOf? (literal : List Char) : Option Float :=
  match splitNumber literal with
  | (n, []) => if n.hasDigits then some n.decimal.toFloat else none
  | _ => none

/-! ## Bytes -/

/-- A digit takes one byte. -/
theorem utf8Size_of_isDigit {c : Char} (hc : c.isDigit = true) : c.utf8Size = 1 := by
  rw [Char.utf8Size_eq_one_iff]
  rw [Char.isDigit, Bool.and_eq_true, decide_eq_true_eq, decide_eq_true_eq] at hc
  exact UInt32.le_trans hc.2 (by decide)

/-- A mark takes a byte for each character. -/
theorem utf8ByteSize_mark {mark : List Char} (hmark : mark ∈ exponentMarks) :
    (String.ofList mark).utf8ByteSize = mark.length := by
  have hall : ∀ mark ∈ exponentMarks, (String.ofList mark).utf8ByteSize = mark.length := by decide
  exact hall mark hmark

/-! ## Marks of exponents -/

/-- The mark of an exponent in front of a text, with its sign if there is one. -/
structure Marked (mark after : List Char) : Prop where
  isMark : mark ∈ exponentMarks
  signed : mark.length = 1 → after.head? ≠ some '+' ∧ after.head? ≠ some '-'

/-- The letter that marks an exponent stands in front with its sign. -/
theorem exists_marked {c : Char} (hc : c = 'e' ∨ c = 'E') (others : List Char) :
    ∃ mark after, c :: others = mark ++ after ∧ Marked mark after ∧
      mark.length = 1 + if others.head? = some '+' ∨ others.head? = some '-' then 1 else 0 := by
  by_cases hsign : others.head? = some '+' ∨ others.head? = some '-'
  · obtain ⟨sign, after, rfl, hsign'⟩ :
        ∃ sign after, others = sign :: after ∧ (sign = '+' ∨ sign = '-') := by
      rcases hsign with h | h <;> obtain ⟨after, rfl⟩ := List.head?_eq_some_iff.mp h
      · exact ⟨_, after, rfl, .inl rfl⟩
      · exact ⟨_, after, rfl, .inr rfl⟩
    refine ⟨[c, sign], after, rfl, ⟨?_, by simp⟩, by rw [if_pos hsign]; rfl⟩
    rcases hc with rfl | rfl <;> rcases hsign' with rfl | rfl <;> decide
  · refine ⟨[c], others, rfl, ⟨?_, fun _ => not_or.mp hsign⟩, by rw [if_neg hsign]; rfl⟩
    rcases hc with rfl | rfl <;> decide

/-- An exponent is cut off if a digit follows on its mark, and then with all digits that follow. -/
theorem splitExponent_marked {mark after : List Char} (hmarked : Marked mark after) :
    (splitExponent (mark ++ after)).2 =
      if after.head?.any Char.isDigit then after.dropWhile Char.isDigit else mark ++ after := by
  obtain ⟨hmark, hsigned⟩ := hmarked
  by_cases hdigit : after.head?.any Char.isDigit = true
  · rw [if_pos hdigit]
    cases after with
    | nil => cases hdigit
    | cons d more =>
      have hd : d.isDigit = true := hdigit
      have hdigits : ∀ c ∈ [d], c.isDigit = true := by simpa using hd
      have hcut := splitExponent_of_mark hmark hdigits (List.cons_ne_nil d []) more
      rw [List.singleton_append] at hcut
      rw [hcut, List.dropWhile_cons_of_pos hd]
  · rw [if_neg hdigit]
    have hnone : splitDigits after = ([], after) := by
      cases after with
      | nil => rfl
      | cons d more =>
        have hd : ¬ d.isDigit = true := hdigit
        rw [splitDigits, List.takeWhile_cons_of_neg hd, List.dropWhile_cons_of_neg hd]
    simp only [exponentMarks, List.mem_cons, List.not_mem_nil, or_false] at hmark
    rcases hmark with rfl | rfl | rfl | rfl | rfl | rfl
    case inl | inr.inl =>
      cases after with
      | nil => rfl
      | cons d more =>
        have hsign : (d == '+' || d == '-') = false := by simpa using hsigned rfl
        simp [splitExponent, hnone, hsign]
    all_goals simp [splitExponent, hnone]

/-! ## Literals cut off again -/

/-- The parts of a literal that was cut off, whether it has digits or not. -/
theorem splitNumber_parts {n : NumberLiteral} {rest after : List Char}
    (hsplit : splitNumber rest = (n, after)) :
    (∀ c ∈ n.whole, c.isDigit = true) ∧ (∀ c ∈ n.fraction, c.isDigit = true) ∧
      (n.hasPoint = false → n.fraction = []) ∧ IsExponent n.exponent := by
  cases hwhole : splitDigits rest with
  | mk whole last =>
    have hdigits := (splitDigits_eq hwhole).2
    by_cases hpoint : ∃ others, last = '.' :: others
    · obtain ⟨others, rfl⟩ := hpoint
      obtain rfl := congrArg Prod.fst (hsplit.symm.trans (splitNumber_of_point hwhole rfl rfl))
      exact ⟨hdigits, (splitDigits_eq rfl).2, by simp, (splitExponent_eq rfl).2⟩
    · have hnone := fun others h => hpoint ⟨others, h⟩
      obtain rfl :=
        congrArg Prod.fst (hsplit.symm.trans (splitNumber_of_no_point hwhole hnone rfl))
      exact ⟨hdigits, by simp, fun _ => rfl, (splitExponent_eq rfl).2⟩

/-- A literal that was cut off is cut off again from its own text. -/
theorem splitNumber_text {n : NumberLiteral} {rest after : List Char}
    (hsplit : splitNumber rest = (n, after)) : splitNumber n.text = (n, []) := by
  obtain ⟨hwhole, hfraction, hpoint, hexponent⟩ := splitNumber_parts hsplit
  obtain ⟨whole, hasPoint, fraction, exponent⟩ := n
  dsimp only at hwhole hfraction hpoint hexponent
  cases hasPoint with
  | true =>
    obtain ⟨more, last, exponent', after', hcut, hcut', -, hend⟩ :=
      exists_splitDigits hfraction hexponent []
    obtain ⟨rfl, rfl, rfl⟩ := hend rfl
    have htext : (NumberLiteral.mk whole true fraction exponent').text =
        whole ++ '.' :: (fraction ++ (exponentText exponent' ++ [])) := by
      show whole ++ '.' :: fraction ++ exponentText exponent' = _
      simp
    have hfirst : splitDigits (whole ++ '.' :: (fraction ++ (exponentText exponent' ++ []))) =
        (whole, '.' :: (fraction ++ (exponentText exponent' ++ []))) :=
      splitDigits_append hwhole (by simp)
    rw [htext, splitNumber_of_point hfirst hcut hcut', List.append_nil]
  | false =>
    obtain rfl : fraction = [] := hpoint rfl
    obtain ⟨more, last, exponent', after', hcut, hcut', -, hend⟩ :=
      exists_splitDigits hwhole hexponent []
    obtain ⟨rfl, rfl, rfl⟩ := hend rfl
    have htext : (NumberLiteral.mk whole false [] exponent').text =
        whole ++ (exponentText exponent' ++ []) := by
      show whole ++ [] ++ exponentText exponent' = _
      simp
    -- A point would be left over by the exponent, and nothing is.
    have hnone : ∀ others, last ≠ '.' :: others := by
      rintro others rfl
      cases congrArg Prod.snd hcut'
    rw [htext, splitNumber_of_no_point hcut hnone hcut', List.append_nil]

/-- The value of a literal is that of its text, if it has digits. -/
theorem floatOf?_text {n : NumberLiteral} {rest after : List Char}
    (hsplit : splitNumber rest = (n, after)) :
    floatOf? n.text = if n.hasDigits then some n.decimal.toFloat else none := by
  rw [floatOf?, splitNumber_text hsplit]

/-- A literal with neither digits nor an exponent is at most a point. -/
theorem text_eq_iff {n : NumberLiteral} {rest after : List Char}
    (hsplit : splitNumber rest = (n, after)) :
    n.text = [] ∨ n.text = ['.'] ↔ n.hasDigits = false ∧ n.exponent = none := by
  constructor
  · intro htext
    have hagain := splitNumber_text hsplit
    rcases htext with htext | htext <;> rw [htext] at hagain <;>
      obtain rfl := congrArg Prod.fst hagain <;> exact ⟨rfl, rfl⟩
  · rintro ⟨hdigits, hexponent⟩
    obtain ⟨whole, hasPoint, fraction, exponent⟩ := n
    obtain rfl : exponent = none := hexponent
    simp only [NumberLiteral.hasDigits, Bool.or_eq_false_iff, Bool.not_eq_false',
      List.isEmpty_iff] at hdigits
    obtain ⟨rfl, rfl⟩ := hdigits
    cases hasPoint with
    | true => exact .inr rfl
    | false => exact .inl rfl

end Reckoner.Token
