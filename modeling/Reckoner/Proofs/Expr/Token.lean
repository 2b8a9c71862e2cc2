import Reckoner.Expr.Parser
import Mathlib.Data.List.TakeWhile
import Mathlib.Tactic.ByContra
import Mathlib.Tactic.Tauto

/-!
# Cutting tokens off a text

A token is cut off the front of a text as it was written, provided that what follows does not go on
with it. Blanks, digits, letters and punctuation exclude one another, so that one look at a
character tells which kind of token it begins.
-/

namespace Reckoner.Token

open Text

/-- No code point lies in a range of both sets. -/
def Disjoint (first second : List (Nat × Nat)) : Prop :=
  ∀ r ∈ first, ∀ s ∈ second, r.2 < s.1 ∨ s.2 < r.1

instance (first second : List (Nat × Nat)) : Decidable (Disjoint first second) :=
  inferInstanceAs (Decidable (∀ r ∈ first, ∀ s ∈ second, r.2 < s.1 ∨ s.2 < r.1))

/-- A character of one set is not in a set that is disjoint from it. -/
theorem Disjoint.inRanges_eq_false {first second : List (Nat × Nat)} {c : Char}
    (hdisjoint : Disjoint first second) (hc : inRanges first c = true) :
    inRanges second c = false := by
  simp only [inRanges, List.any_eq_true, Bool.and_eq_true, decide_eq_true_eq] at hc
  obtain ⟨r, hr, hrc⟩ := hc
  rw [inRanges, List.any_eq_false]
  intro s hs
  have h := hdisjoint r hr s hs
  simp only [Bool.and_eq_true, decide_eq_true_eq]
  omega

/-- The digits of the numerals as a set of characters. -/
theorem isDigit_eq_inRanges (c : Char) : c.isDigit = inRanges [(48, 57)] c := by
  simp only [Char.isDigit, inRanges, List.any_cons, List.any_nil, Bool.or_false]
  congr 1

/-- Digits go on a name. -/
theorem isNamePart_of_isDigit {c : Char} (hc : c.isDigit = true) : isNamePart c = true := by
  rw [isDigit_eq_inRanges] at hc
  have hnumeral : isNumeral c = true := by
    rw [inRanges, List.any_eq_true] at hc
    obtain ⟨r, hr, hrc⟩ := hc
    obtain rfl := List.mem_singleton.mp hr
    exact List.any_eq_true.mpr ⟨(48, 57), by decide, hrc⟩
  simp [isNamePart, hnumeral]

/-- Blanks are neither letters nor numerals. -/
theorem disjoint_blanks :
    Disjoint blankRanges letterRanges ∧ Disjoint blankRanges numeralRanges := by
  decide +kernel

/-- The characters besides letters and numerals that stand in names. -/
def marks : List Char :=
  ['_', '€', '$', '£', '¥']

/-- What begins a name is a letter or one of the other characters. -/
theorem isNameStart_iff (c : Char) : isNameStart c = true ↔ isLetter c = true ∨ c ∈ marks := by
  simp only [isNameStart, marks, Bool.or_eq_true, beq_iff_eq, List.mem_cons, List.not_mem_nil,
    or_false]
  tauto

/-- A condition holds of every character of a list, if going through the list finds it to hold. -/
theorem forall_mem_of_all {chars : List Char} {p : Char → Prop} [DecidablePred p]
    (hall : chars.all (fun c => decide (p c)) = true) : ∀ c ∈ chars, p c :=
  fun c hc => of_decide_eq_true (List.all_eq_true.mp hall c hc)

/-- No blank begins or goes on a name. -/
theorem not_name_of_isBlank {c : Char} (hc : isBlank c = true) :
    isNameStart c = false ∧ isNamePart c = false := by
  have hletter : isLetter c = false := disjoint_blanks.1.inRanges_eq_false hc
  have hnumeral : isNumeral c = false := disjoint_blanks.2.inRanges_eq_false hc
  have hmarks : ∀ d ∈ marks, isBlank d = false := forall_mem_of_all (by decide)
  have hmark : c ∉ marks := by
    intro hmem
    rw [hmarks c hmem] at hc
    simp at hc
  constructor
  · rw [← Bool.not_eq_true, isNameStart_iff]
    simp [hletter, hmark]
  · have hunderscore : c ≠ '_' := by
      rintro rfl
      simp [marks] at hmark
    simp [isNamePart, hletter, hnumeral, hunderscore]

/-- What begins a name is no digit. -/
theorem not_isDigit_of_isNameStart {c : Char} (hc : isNameStart c = true) :
    c.isDigit = false := by
  rcases (isNameStart_iff c).mp hc with hletter | hmark
  · rw [isDigit_eq_inRanges]
    have hdisjoint : Disjoint letterRanges [(48, 57)] := by decide +kernel
    exact hdisjoint.inRanges_eq_false hletter
  · have hmarks : ∀ d ∈ marks, d.isDigit = false := forall_mem_of_all (by decide)
    exact hmarks c hmark

/-- What begins a name is not a character that is read otherwise. -/
theorem isNameStart_ne {c : Char} (hc : isNameStart c = true) :
    ∀ d ∈ ['(', ')', ',', '+', '-', '*', '/', '^', '.'], c ≠ d := by
  have hother : ∀ d ∈ ['(', ')', ',', '+', '-', '*', '/', '^', '.'], isNameStart d = false :=
    forall_mem_of_all (by decide +kernel)
  rintro d hd rfl
  rw [hother c hd] at hc
  simp at hc

/-- No blank begins a name. -/
theorem isBlank_of_isNameStart {c : Char} (hc : isNameStart c = true) : isBlank c = false := by
  by_contra hblank
  have h := (not_name_of_isBlank (by simpa using hblank)).1
  rw [hc] at h
  simp at h

/-! ## Names -/

/-- A name as `splitName` cuts it off: it may begin with any part of a name. -/
def IsName : List Char → Prop
  | [] => False
  | c :: others => (isNameStart c || isNamePart c) = true ∧ ∀ d ∈ others, isNamePart d = true

/-- A name that an operand may be: its first character begins a name. -/
structure IsWord (label : List Char) : Prop where
  isName : IsName label
  begins : ∃ c others, label = c :: others ∧ isNameStart c = true

/-- What may follow a name or a number, so that it does not go on. -/
def Parted : List Char → Prop
  | [] => True
  | c :: _ => isNamePart c = false ∧ c ≠ '.'

/-- A name in front is cut off as far as it goes on. -/
theorem splitName_cons {c : Char} (hc : (isNameStart c || isNamePart c) = true)
    (others : List Char) :
    splitName (c :: others) =
      (c :: others.takeWhile isNamePart, others.dropWhile isNamePart) := by
  rw [splitName, nameLength, if_pos hc, List.splitAt_eq, Nat.add_comm 1, List.take_succ_cons,
    List.drop_succ_cons]
  have hsplit := List.takeWhile_append_dropWhile (p := isNamePart) (l := others)
  generalize others.takeWhile isNamePart = front at hsplit ⊢
  generalize others.dropWhile isNamePart = back at hsplit ⊢
  rw [← hsplit]
  simp

/-- A name that is cut off is one, if there is any. -/
theorem isName_of_splitName {text label rest : List Char} (hsplit : splitName text = (label, rest))
    (hlabel : label ≠ []) : IsName label := by
  cases text with
  | nil => exact absurd (Prod.mk.inj hsplit).1.symm hlabel
  | cons c others =>
    by_cases hc : (isNameStart c || isNamePart c) = true
    · rw [splitName_cons hc] at hsplit
      obtain ⟨rfl, -⟩ := Prod.mk.inj hsplit
      exact ⟨hc, fun _ hd => List.mem_takeWhile_imp hd⟩
    · rw [splitName, nameLength, if_neg hc] at hsplit
      exact absurd (Prod.mk.inj hsplit).1.symm hlabel

/-- What is cut off a text that begins a name is a word. -/
theorem isWord_of_splitName {c : Char} {others label rest : List Char}
    (hstart : isNameStart c = true) (hsplit : splitName (c :: others) = (label, rest)) :
    IsWord label := by
  have hc : (isNameStart c || isNamePart c) = true := by rw [hstart, Bool.true_or]
  have hcut := splitName_cons hc others
  rw [hsplit] at hcut
  obtain ⟨rfl, -⟩ := Prod.mk.inj hcut
  exact ⟨isName_of_splitName hsplit (List.cons_ne_nil _ _), c, _, rfl, hstart⟩

/-- A name is cut off where nothing goes on with it. -/
theorem splitName_append {label rest : List Char} (hlabel : IsName label) (hrest : Parted rest) :
    splitName (label ++ rest) = (label, rest) := by
  cases label with
  | nil => exact hlabel.elim
  | cons c others =>
    rw [List.cons_append, splitName_cons hlabel.1, List.takeWhile_append_of_pos hlabel.2,
      List.dropWhile_append_of_pos hlabel.2]
    cases rest with
    | nil => simp
    | cons d more => simp [hrest.1]

/-- Nothing but the keyword is read as the keyword. -/
theorem afterTo?_eq_some {text rest : List Char} (hto : afterTo? text = some rest) :
    text = 't' :: 'o' :: rest ∧ ∀ c ∈ rest.head?, isNamePart c = false := by
  unfold afterTo? at hto
  split at hto
  · split at hto
    · obtain rfl := Option.some.inj hto
      exact ⟨rfl, by simp⟩
    · next c others =>
      split at hto
      · simp at hto
      · next hc =>
        obtain rfl := Option.some.inj hto
        exact ⟨rfl, by simpa using hc⟩
  · simp at hto

/-- The keyword is read where no name goes on with it. -/
theorem afterTo?_to {rest : List Char} (hrest : Parted rest) :
    afterTo? ('t' :: 'o' :: rest) = some rest := by
  cases rest with
  | nil => rfl
  | cons c others => simp [afterTo?, hrest.1]

/-- Whether the keyword stands in front depends only on the first token of a text. -/
theorem afterTo?_append {text rest : List Char} (htext : text ≠ []) (hrest : Parted rest) :
    afterTo? (text ++ rest) = (afterTo? text).map (· ++ rest) := by
  match text with
  | [] => exact (htext rfl).elim
  | [c] =>
    have hone : afterTo? [c] = none := by simp [afterTo?]
    rw [hone, Option.map_none, List.singleton_append, Option.eq_none_iff_forall_not_mem]
    intro after hafter
    obtain ⟨hsplit, -⟩ := afterTo?_eq_some hafter
    obtain ⟨rfl, rfl⟩ := List.cons.inj hsplit
    have hletter : isNamePart 'o' = true := by decide +kernel
    rw [hrest.1] at hletter
    simp at hletter
  | c :: d :: others =>
    by_cases hto : c = 't' ∧ d = 'o'
    · obtain ⟨rfl, rfl⟩ := hto
      cases others with
      | nil => exact afterTo?_to hrest
      | cons next more =>
        simp only [List.cons_append, afterTo?]
        split <;> rfl
    · have hother (more : List Char) : afterTo? (c :: d :: more) = none := by
        rw [Option.eq_none_iff_forall_not_mem]
        intro after hafter
        obtain ⟨hsplit, -⟩ := afterTo?_eq_some hafter
        simp_all
      simp only [List.cons_append, hother, Option.map_none]

/-- Whether an operand follows depends only on the first token of a text. -/
theorem startsOperand_append {text rest : List Char} (htext : text ≠ []) (hrest : Parted rest) :
    Expr.Parser.startsOperand (text ++ rest) = Expr.Parser.startsOperand text := by
  have hkeyword := afterTo?_append htext hrest
  cases text with
  | nil => exact (htext rfl).elim
  | cons c others =>
    rw [List.cons_append] at hkeyword ⊢
    simp only [Expr.Parser.startsOperand, hkeyword, Option.isNone_map]

/-! ## Numbers -/

/-- Digits in front are cut off with those that follow. -/
theorem splitDigits_append_of_pos {digits : List Char} (hdigits : ∀ c ∈ digits, c.isDigit = true)
    (rest : List Char) :
    splitDigits (digits ++ rest) =
      (digits ++ rest.takeWhile Char.isDigit, rest.dropWhile Char.isDigit) := by
  rw [splitDigits, List.takeWhile_append_of_pos hdigits, List.dropWhile_append_of_pos hdigits]

/-- Digits are cut off where no other digit follows. -/
theorem splitDigits_append {digits rest : List Char} (hdigits : ∀ c ∈ digits, c.isDigit = true)
    (hrest : ∀ c ∈ rest.head?, c.isDigit = false) :
    splitDigits (digits ++ rest) = (digits, rest) := by
  rw [splitDigits_append_of_pos hdigits]
  cases rest with
  | nil => simp
  | cons c others => simp [hrest c rfl]

/-- No digit stands where nothing goes on with a number. -/
theorem Parted.not_isDigit {rest : List Char} (hrest : Parted rest) :
    ∀ c ∈ rest.head?, c.isDigit = false := by
  cases rest with
  | nil => simp
  | cons c others =>
    intro d hd
    obtain rfl := Option.some.inj hd
    by_contra hdigit
    have hpart := isNamePart_of_isDigit (by simpa using hdigit)
    rw [hrest.1] at hpart
    simp at hpart

/-- No exponent stands where nothing goes on with a number. -/
theorem splitExponent_of_parted {rest : List Char} (hrest : Parted rest) :
    splitExponent rest = (none, rest) := by
  cases rest with
  | nil => rfl
  | cons c others =>
    have hletters : isNamePart 'e' = true ∧ isNamePart 'E' = true := by decide +kernel
    have hc : ¬ (c == 'e' || c == 'E') = true := by
      intro hmark
      rw [Bool.or_eq_true, beq_iff_eq, beq_iff_eq] at hmark
      have hpart := hrest.1
      rcases hmark with rfl | rfl <;> simp_all
    simp only [splitExponent]
    rw [if_neg hc]

/-- A number without a point is cut off where nothing goes on with it. -/
theorem splitNumber_whole {whole rest : List Char} (hwhole : ∀ c ∈ whole, c.isDigit = true)
    (hrest : Parted rest) : splitNumber (whole ++ rest) = (⟨whole, false, [], none⟩, rest) := by
  have hpoint : ∀ others, rest ≠ '.' :: others := by
    rintro others rfl
    exact hrest.2 rfl
  unfold splitNumber
  rw [splitDigits_append hwhole hrest.not_isDigit]
  dsimp only
  split
  · next others => exact (hpoint others rfl).elim
  · simp only [splitExponent_of_parted hrest]

/-- A number with a point is cut off where nothing goes on with it. -/
theorem splitNumber_fraction {whole fraction rest : List Char}
    (hwhole : ∀ c ∈ whole, c.isDigit = true) (hfraction : ∀ c ∈ fraction, c.isDigit = true)
    (hrest : Parted rest) :
    splitNumber (whole ++ '.' :: fraction ++ rest) = (⟨whole, true, fraction, none⟩, rest) := by
  have hpoint : ∀ c ∈ ('.' :: (fraction ++ rest)).head?, c.isDigit = false := by simp
  unfold splitNumber
  rw [List.append_assoc, List.cons_append, splitDigits_append hwhole hpoint]
  simp only [splitDigits_append hfraction hrest.not_isDigit, splitExponent_of_parted hrest]

end Reckoner.Token
