import Reckoner.Proofs.Expr.Token

/-!
# Tokens by longest match

What the tokens of an expression are, said without the functions that cut them off: a token is the
longest beginning of a text that is a word of its kind, and blanks may come before it. This file
proves that the functions cut off the same.
-/

namespace Reckoner.Token

open Text

/-! ## Blanks -/

/-- After some blanks the rest of a text begins. -/
def AfterBlanks (text rest : List Char) : Prop :=
  ∃ blanks, (∀ c ∈ blanks, isBlank c = true) ∧ text = blanks ++ rest

namespace AfterBlanks

variable {text between rest : List Char}

/-- There need be no blanks. -/
theorem refl (text : List Char) : AfterBlanks text text :=
  ⟨[], by simp, rfl⟩

/-- Blanks may follow on blanks. -/
theorem trans (hfirst : AfterBlanks text between) (hsecond : AfterBlanks between rest) :
    AfterBlanks text rest := by
  obtain ⟨blanks, hblanks, rfl⟩ := hfirst
  obtain ⟨others, hothers, rfl⟩ := hsecond
  refine ⟨blanks ++ others, fun c hc => ?_, by rw [List.append_assoc]⟩
  exact (List.mem_append.mp hc).elim (hblanks c) (hothers c)

/-- All blanks may be skipped. -/
theorem skipBlanks (text : List Char) : AfterBlanks text (skipBlanks text) :=
  ⟨text.takeWhile isBlank, fun _ hc => List.mem_takeWhile_imp hc,
    List.takeWhile_append_dropWhile.symm⟩

/-- What is left when all blanks are skipped comes after some blanks. -/
theorem of_skipBlanks_eq (htext : Text.skipBlanks text = rest) : AfterBlanks text rest :=
  htext ▸ skipBlanks text

/-- Some blanks more or less make no difference when all of them are skipped. -/
theorem skipBlanks_eq (h : AfterBlanks text rest) :
    Text.skipBlanks text = Text.skipBlanks rest := by
  obtain ⟨blanks, hblanks, rfl⟩ := h
  exact List.dropWhile_append_of_pos hblanks

/-- When all blanks are skipped, a character that is none is in front. -/
theorem skipBlanks_cons {c : Char} (h : AfterBlanks text (c :: rest)) (hc : isBlank c = false) :
    Text.skipBlanks text = c :: rest := by
  rw [h.skipBlanks_eq]
  exact List.dropWhile_cons_of_neg (by simp [hc])

/-- What comes after some blanks is no longer than the text. -/
theorem length_le (h : AfterBlanks text rest) : rest.length ≤ text.length := by
  obtain ⟨blanks, -, rfl⟩ := h
  exact (List.suffix_append blanks rest).length_le

end AfterBlanks

/-! ## Longest matches -/

/-- A text begins with a lexeme of some kind, and no longer beginning of it is one. -/
structure LongestMatch (kind : List Char → Prop) (text lexeme rest : List Char) : Prop where
  split : text = lexeme ++ rest
  isKind : kind lexeme
  longest : ∀ other more, text = other ++ more → kind other → other.length ≤ lexeme.length

/-- There is one longest match at the most. -/
theorem LongestMatch.unique {kind : List Char → Prop} {text lexeme rest lexeme' rest' : List Char}
    (h : LongestMatch kind text lexeme rest) (h' : LongestMatch kind text lexeme' rest') :
    lexeme = lexeme' ∧ rest = rest' := by
  have hlength : lexeme.length = lexeme'.length :=
    Nat.le_antisymm (h'.longest lexeme rest h.split h.isKind)
      (h.longest lexeme' rest' h'.split h'.isKind)
  exact List.append_inj (h.split.symm.trans h'.split) hlength

/-- What comes after a longest match is no longer than the text. -/
theorem LongestMatch.length_le {kind : List Char → Prop} {text lexeme rest : List Char}
    (h : LongestMatch kind text lexeme rest) : rest.length ≤ text.length := by
  rw [h.split]
  exact (List.suffix_append lexeme rest).length_le

/-! ## Names -/

section names

variable {c : Char} {text others label rest : List Char}

/-- A name that is cut off is the longest one. -/
theorem longestMatch_splitName (hsplit : splitName text = (label, rest)) (hlabel : label ≠ []) :
    LongestMatch IsName text label rest where
  split := by
    rw [splitName, List.splitAt_eq] at hsplit
    obtain ⟨rfl, rfl⟩ := Prod.mk.inj hsplit
    exact (List.take_append_drop _ _).symm
  isKind := isName_of_splitName hsplit hlabel
  longest := by
    rintro (_ | ⟨c, front⟩) more rfl hother
    · exact Nat.zero_le _
    · rw [List.cons_append, splitName_cons hother.1] at hsplit
      obtain ⟨rfl, -⟩ := Prod.mk.inj hsplit
      rw [List.takeWhile_append_of_pos hother.2]
      simp

/-- The longest name is cut off. -/
theorem LongestMatch.splitName_eq (h : LongestMatch IsName text label rest) :
    splitName text = (label, rest) := by
  obtain ⟨hsplit, hlabel, -⟩ := id h
  cases label with
  | nil => exact hlabel.elim
  | cons c front =>
    have hcut := splitName_cons hlabel.1 (front ++ rest)
    rw [← List.cons_append, ← hsplit] at hcut
    obtain ⟨heq, hrest⟩ := h.unique (longestMatch_splitName hcut (List.cons_ne_nil _ _))
    rw [hcut, ← heq, ← hrest]

/-- Where a word begins, the longest name is the longest word. -/
theorem longestMatch_word (hstart : isNameStart c = true)
    (hsplit : splitName (c :: others) = (label, rest)) :
    LongestMatch IsWord (c :: others) label rest := by
  have hword : IsWord label := isWord_of_splitName hstart hsplit
  have hlabel : label ≠ [] := by
    rintro rfl
    exact hword.isName
  have hname := longestMatch_splitName hsplit hlabel
  exact ⟨hname.split, hword, fun other more htext hother =>
    hname.longest other more htext hother.isName⟩

/-- The longest word is cut off where one begins. -/
theorem LongestMatch.word (h : LongestMatch IsWord text label rest) :
    ∃ c others, text = c :: others ∧ isNameStart c = true ∧
      splitName (c :: others) = (label, rest) := by
  obtain ⟨c, front, rfl, hc⟩ := h.isKind.begins
  refine ⟨c, front ++ rest, h.split, hc, ?_⟩
  have hstart : (isNameStart c || isNamePart c) = true := by rw [hc, Bool.true_or]
  have hcut := splitName_cons hstart (front ++ rest)
  have hword := longestMatch_word hc hcut
  rw [← List.cons_append, ← h.split] at hword
  obtain ⟨heq, hrest⟩ := h.unique hword
  rw [hcut, ← heq, ← hrest]

end names

/-- The keyword stands in front of the rest of a text, and no name goes on with it. -/
structure Keyword (text rest : List Char) : Prop where
  split : text = 't' :: 'o' :: rest
  ends : ∀ c ∈ rest.head?, isNamePart c = false

/-- The keyword is found where it stands. -/
theorem afterTo?_eq_some_iff {text rest : List Char} :
    afterTo? text = some rest ↔ Keyword text rest := by
  constructor
  · intro hto
    exact ⟨(afterTo?_eq_some hto).1, (afterTo?_eq_some hto).2⟩
  · rintro ⟨rfl, hends⟩
    cases rest with
    | nil => rfl
    | cons c others =>
      rw [afterTo?, hends c rfl]
      rfl

/-! ## Numbers -/

/-- The letters that mark an exponent, with the sign that may follow. -/
def exponentMarks : List (List Char) :=
  [['e'], ['E'], ['e', '+'], ['e', '-'], ['E', '+'], ['E', '-']]

/-- An exponent, if there is one, has a mark and digits. -/
def IsExponent (exponent : Option (List Char × List Char)) : Prop :=
  ∀ mark digits, exponent = some (mark, digits) →
    mark ∈ exponentMarks ∧ digits ≠ [] ∧ ∀ c ∈ digits, c.isDigit = true

/-- The written form of an exponent, if there is one. -/
def exponentText : Option (List Char × List Char) → List Char
  | none => []
  | some (mark, digits) => mark ++ digits

/-- The literals that denote numbers: digits, with a point before, between or after them, and an
exponent only with digits of its own. -/
structure NumberLiteral.WellFormed (n : NumberLiteral) : Prop where
  whole : ∀ c ∈ n.whole, c.isDigit = true
  fraction : ∀ c ∈ n.fraction, c.isDigit = true
  point : n.hasPoint = false → n.fraction = []
  digits : n.hasDigits = true
  exponent : IsExponent n.exponent

/-- A text that is a number literal. -/
def IsNumeral (lexeme : List Char) : Prop :=
  ∃ n : NumberLiteral, n.WellFormed ∧ n.text = lexeme

section numbers

variable {text digits rest : List Char} {exponent : Option (List Char × List Char)}

/-- What is cut off as digits are digits, and the text is made up of them and the rest. -/
theorem splitDigits_eq (hsplit : splitDigits text = (digits, rest)) :
    text = digits ++ rest ∧ ∀ c ∈ digits, c.isDigit = true := by
  obtain ⟨rfl, rfl⟩ := Prod.mk.inj hsplit
  exact ⟨List.takeWhile_append_dropWhile.symm, fun _ hc => List.mem_takeWhile_imp hc⟩

/-- A mark is no digit and no point. -/
theorem exists_mark {mark : List Char} (hmark : mark ∈ exponentMarks) :
    ∃ e others, mark = e :: others ∧ e.isDigit = false ∧ e ≠ '.' := by
  simp only [exponentMarks, List.mem_cons, List.not_mem_nil, or_false] at hmark
  rcases hmark with rfl | rfl | rfl | rfl | rfl | rfl <;>
    exact ⟨_, _, rfl, by decide, by decide⟩

/-- An exponent is cut off with the digits that follow. -/
theorem splitExponent_of_mark {mark : List Char} (hmark : mark ∈ exponentMarks)
    (hdigits : ∀ c ∈ digits, c.isDigit = true) (hne : digits ≠ []) (rest : List Char) :
    splitExponent (mark ++ (digits ++ rest)) =
      (some (mark, digits ++ rest.takeWhile Char.isDigit), rest.dropWhile Char.isDigit) := by
  have hcut := splitDigits_append_of_pos hdigits rest
  cases digits with
  | nil => exact absurd rfl hne
  | cons d others =>
    have hsign : (d == '+' || d == '-') = false := by
      have hdigit := hdigits d List.mem_cons_self
      rw [Bool.or_eq_false_iff, beq_eq_false_iff_ne, beq_eq_false_iff_ne]
      constructor <;>
      · rintro rfl
        simp at hdigit
    rw [List.cons_append] at hcut
    simp only [exponentMarks, List.mem_cons, List.not_mem_nil, or_false] at hmark
    rcases hmark with rfl | rfl | rfl | rfl | rfl | rfl <;>
      simp [splitExponent, hcut, hsign]

/-- What is cut off as an exponent is one, and makes up the text with the rest. -/
theorem splitExponent_eq (hsplit : splitExponent text = (exponent, rest)) :
    text = exponentText exponent ++ rest ∧ IsExponent exponent := by
  have hnothing (hsplit : (none, text) = (exponent, rest)) :
      text = exponentText exponent ++ rest ∧ IsExponent exponent := by
    obtain ⟨rfl, rfl⟩ := Prod.mk.inj hsplit
    exact ⟨rfl, by simp [IsExponent]⟩
  have hmarked (mark : List Char) {after digits last : List Char} (hmark : mark ∈ exponentMarks)
      (htext : text = mark ++ after) (hcut : splitDigits after = (digits, last)) (hne : digits ≠ [])
      (hsplit : (some (mark, digits), last) = (exponent, rest)) :
      text = exponentText exponent ++ rest ∧ IsExponent exponent := by
    obtain ⟨rfl, rfl⟩ := Prod.mk.inj hsplit
    obtain ⟨hafter, hdigits⟩ := splitDigits_eq hcut
    refine ⟨by rw [htext, hafter, exponentText, List.append_assoc], ?_⟩
    intro mark' digits' heq
    obtain ⟨rfl, rfl⟩ := Prod.mk.inj (Option.some.inj heq)
    exact ⟨hmark, hne, hdigits⟩
  unfold splitExponent at hsplit
  dsimp only at hsplit
  split at hsplit
  · next e others =>
    split at hsplit
    · next he =>
      rw [Bool.or_eq_true, beq_iff_eq, beq_iff_eq] at he
      split at hsplit
      · next sign digits =>
        split at hsplit
        · next hsign =>
          rw [Bool.or_eq_true, beq_iff_eq, beq_iff_eq] at hsign
          split at hsplit
          · exact hnothing hsplit
          · next hne hcut =>
            refine hmarked [e, sign] ?_ rfl hcut hne hsplit
            rcases he with rfl | rfl <;> rcases hsign with rfl | rfl <;> decide
        · split at hsplit
          · exact hnothing hsplit
          · next hne hcut =>
            refine hmarked [e] ?_ rfl hcut hne hsplit
            rcases he with rfl | rfl <;> decide
      · exact hnothing hsplit
    · exact hnothing hsplit
  · exact hnothing hsplit

/-- A text with a point after its first digits is cut there. -/
theorem splitNumber_of_point {whole after fraction last : List Char}
    (hwhole : splitDigits text = (whole, '.' :: after))
    (hfraction : splitDigits after = (fraction, last))
    (hexponent : splitExponent last = (exponent, rest)) :
    splitNumber text = (⟨whole, true, fraction, exponent⟩, rest) := by
  simp only [splitNumber, hwhole, hfraction, hexponent]

/-- A text without a point after its first digits may go on with an exponent at once. -/
theorem splitNumber_of_no_point {whole last : List Char}
    (hwhole : splitDigits text = (whole, last)) (hpoint : ∀ after, last ≠ '.' :: after)
    (hexponent : splitExponent last = (exponent, rest)) :
    splitNumber text = (⟨whole, false, [], exponent⟩, rest) := by
  unfold splitNumber
  rw [hwhole]
  dsimp only
  split
  · next after => exact absurd rfl (hpoint after)
  · dsimp only
    rw [hexponent]

/-- What is cut off as a number literal makes up the text with the rest, and denotes a number if it
has digits. -/
theorem splitNumber_eq {n : NumberLiteral} (hsplit : splitNumber text = (n, rest)) :
    text = n.text ++ rest ∧ (n.hasDigits = true → n.WellFormed) := by
  cases hwhole : splitDigits text with
  | mk whole last =>
    obtain ⟨htext, hdigits⟩ := splitDigits_eq hwhole
    by_cases hpoint : ∃ after, last = '.' :: after
    · obtain ⟨after, rfl⟩ := hpoint
      cases hfraction : splitDigits after with
      | mk fraction last =>
        cases hexponent : splitExponent last with
        | mk exponent last' =>
          obtain ⟨rfl, rfl⟩ :=
            Prod.mk.inj (hsplit.symm.trans (splitNumber_of_point hwhole hfraction hexponent))
          obtain ⟨hafter, hfractions⟩ := splitDigits_eq hfraction
          obtain ⟨hlast, hisExponent⟩ := splitExponent_eq hexponent
          refine ⟨?_, fun hhas => ⟨hdigits, hfractions, by simp, hhas, hisExponent⟩⟩
          show text = whole ++ '.' :: fraction ++ exponentText exponent ++ rest
          rw [htext, hafter, hlast]
          simp
    · have hnone : ∀ after, last ≠ '.' :: after := fun after h => hpoint ⟨after, h⟩
      cases hexponent : splitExponent last with
      | mk exponent last' =>
        obtain ⟨rfl, rfl⟩ :=
          Prod.mk.inj (hsplit.symm.trans (splitNumber_of_no_point hwhole hnone hexponent))
        obtain ⟨hlast, hisExponent⟩ := splitExponent_eq hexponent
        refine ⟨?_, fun hhas => ⟨hdigits, by simp, fun _ => rfl, hhas, hisExponent⟩⟩
        show text = whole ++ [] ++ exponentText exponent ++ rest
        rw [htext, hlast]
        simp

/-- Digits and an exponent in front of a text are cut off with what goes on with them. -/
theorem exists_splitDigits (hdigits : ∀ c ∈ digits, c.isDigit = true)
    (hexponent : IsExponent exponent) (rest : List Char) :
    ∃ more last exponent' rest',
      splitDigits (digits ++ (exponentText exponent ++ rest)) = (digits ++ more, last) ∧
        splitExponent last = (exponent', rest') ∧
        exponentText exponent <+: more ++ exponentText exponent' ∧
        (rest = [] → more = [] ∧ exponent' = exponent ∧ rest' = []) := by
  cases exponent with
  | none =>
    rw [exponentText, List.nil_append, splitDigits_append_of_pos hdigits]
    refine ⟨_, _, _, _, rfl, rfl, List.nil_prefix, ?_⟩
    rintro rfl
    exact ⟨rfl, rfl, rfl⟩
  | some pair =>
    obtain ⟨mark, own⟩ := pair
    obtain ⟨hmark, hne, hown⟩ := hexponent mark own rfl
    obtain ⟨e, others, heq, he, -⟩ := exists_mark hmark
    refine ⟨[], mark ++ (own ++ rest), _, _, ?_, splitExponent_of_mark hmark hown hne rest, ?_, ?_⟩
    · rw [exponentText, List.append_assoc, List.append_nil]
      apply splitDigits_append hdigits
      rw [heq]
      simpa using he
    · rw [exponentText, exponentText, List.nil_append, ← List.append_assoc]
      exact List.prefix_append _ _
    · rintro rfl
      simp

/-- A number literal in front of a text is cut off with what goes on with it. -/
theorem exists_splitNumber {n : NumberLiteral} (hn : n.WellFormed) (rest : List Char) :
    ∃ m last, splitNumber (n.text ++ rest) = (m, last) ∧ n.text <+: m.text ∧
      m.hasDigits = true ∧ (rest = [] → m = n) := by
  obtain ⟨whole, hasPoint, fraction, exponent⟩ := n
  obtain ⟨hwhole, hfraction, hpoint, hdigits, hexponent⟩ := hn
  rw [NumberLiteral.hasDigits] at hdigits
  dsimp only at hwhole hfraction hpoint hdigits hexponent
  cases hasPoint with
  | true =>
    obtain ⟨more, last, exponent', rest', hcut, hcut', hprefix, hnil⟩ :=
      exists_splitDigits hfraction hexponent rest
    have htext : (NumberLiteral.mk whole true fraction exponent).text ++ rest =
        whole ++ '.' :: (fraction ++ (exponentText exponent ++ rest)) := by
      show whole ++ '.' :: fraction ++ exponentText exponent ++ rest = _
      simp
    have hfirst : splitDigits (whole ++ '.' :: (fraction ++ (exponentText exponent ++ rest))) =
        (whole, '.' :: (fraction ++ (exponentText exponent ++ rest))) :=
      splitDigits_append hwhole (by simp)
    rw [htext]
    refine ⟨_, _, splitNumber_of_point hfirst hcut hcut', ?_, ?_, ?_⟩
    · show whole ++ '.' :: fraction ++ exponentText exponent <+:
        whole ++ '.' :: (fraction ++ more) ++ exponentText exponent'
      simpa using hprefix
    · show (!whole.isEmpty || !(fraction ++ more).isEmpty) = true
      cases whole <;> cases fraction <;> simp at hdigits ⊢
    · intro hrest
      obtain ⟨rfl, rfl, -⟩ := hnil hrest
      rw [List.append_nil]
  | false =>
    obtain rfl : fraction = [] := hpoint rfl
    obtain ⟨more, last, exponent', rest', hcut, hcut', hprefix, hnil⟩ :=
      exists_splitDigits hwhole hexponent rest
    have htext : (NumberLiteral.mk whole false [] exponent).text ++ rest =
        whole ++ (exponentText exponent ++ rest) := by
      show whole ++ [] ++ exponentText exponent ++ rest = _
      simp
    have hmore : (!(whole ++ more).isEmpty) = true := by
      cases whole <;> simp at hdigits ⊢
    rw [htext]
    by_cases hend : ∃ after, last = '.' :: after
    · -- No exponent begins with a point, so all of the literal is in the digits before it.
      obtain ⟨after, rfl⟩ := hend
      obtain ⟨rfl, rfl⟩ : none = exponent' ∧ '.' :: after = rest' := Prod.mk.inj hcut'
      refine ⟨_, _, splitNumber_of_point hcut rfl rfl, ?_, ?_, ?_⟩
      · show whole ++ [] ++ exponentText exponent <+: whole ++ more ++ '.' :: _ ++ _
        rw [exponentText, List.append_nil] at hprefix
        rw [List.append_nil, List.append_assoc, List.append_assoc, List.prefix_append_right_inj]
        exact hprefix.trans (List.prefix_append _ _)
      · rw [NumberLiteral.hasDigits, hmore, Bool.true_or]
      · intro hrest
        cases (hnil hrest).2.2
    · refine ⟨_, _, splitNumber_of_no_point hcut (fun after h => hend ⟨after, h⟩) hcut', ?_, ?_, ?_⟩
      · show whole ++ [] ++ exponentText exponent <+: whole ++ more ++ [] ++ exponentText exponent'
        simpa using hprefix
      · rw [NumberLiteral.hasDigits, hmore, Bool.true_or]
      · intro hrest
        obtain ⟨rfl, rfl, -⟩ := hnil hrest
        rw [List.append_nil]

/-- Literals with the same written form are the same. -/
theorem NumberLiteral.WellFormed.text_inj {n m : NumberLiteral} (hn : n.WellFormed)
    (hm : m.WellFormed) (htext : n.text = m.text) : n = m := by
  obtain ⟨n', last, hn', -, -, hsame⟩ := exists_splitNumber hn []
  obtain ⟨m', last', hm', -, -, hsame'⟩ := exists_splitNumber hm []
  rw [htext, hm'] at hn'
  obtain rfl := (Prod.mk.inj hn').1
  exact (hsame rfl).symm.trans (hsame' rfl)

/-- A number literal that is cut off is the longest one. -/
theorem longestMatch_splitNumber {n : NumberLiteral} (hsplit : splitNumber text = (n, rest))
    (hdigits : n.hasDigits = true) : LongestMatch IsNumeral text n.text rest := by
  obtain ⟨htext, hn⟩ := splitNumber_eq hsplit
  refine ⟨htext, ⟨n, hn hdigits, rfl⟩, ?_⟩
  rintro other more rfl ⟨m, hm, rfl⟩
  obtain ⟨n', last, hsplit', hprefix, -⟩ := exists_splitNumber hm more
  obtain rfl := (Prod.mk.inj (hsplit.symm.trans hsplit')).1
  exact hprefix.length_le

/-- The longest number literal is cut off. -/
theorem LongestMatch.splitNumber_eq {n : NumberLiteral} (hn : n.WellFormed)
    (h : LongestMatch IsNumeral text n.text rest) : splitNumber text = (n, rest) := by
  obtain ⟨m, last, hsplit, -, hdigits, -⟩ := exists_splitNumber hn rest
  rw [← h.split] at hsplit
  obtain ⟨htext, hrest⟩ := h.unique (longestMatch_splitNumber hsplit hdigits)
  rw [hsplit, hn.text_inj ((Token.splitNumber_eq hsplit).2 hdigits) htext, hrest]

/-- A number literal begins with a digit or with a point. -/
theorem NumberLiteral.WellFormed.begins {n : NumberLiteral} (hn : n.WellFormed) :
    ∃ c others, n.text = c :: others ∧ (c.isDigit = true ∨ c = '.') := by
  obtain ⟨whole, hasPoint, fraction, exponent⟩ := n
  obtain ⟨hwhole, -, hpoint, hdigits, -⟩ := hn
  cases whole with
  | cons c others => exact ⟨c, _, rfl, .inl (hwhole c List.mem_cons_self)⟩
  | nil =>
    cases hasPoint with
    | true => exact ⟨'.', _, rfl, .inr rfl⟩
    | false =>
      obtain rfl : fraction = [] := hpoint rfl
      cases hdigits

end numbers

end Reckoner.Token
