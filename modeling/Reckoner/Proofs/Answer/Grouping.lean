import Reckoner.Proofs.Answer.Radix

/-!
# Digits in groups

The digits before the point are set in groups of three, which are counted from the point, so that
only the first group may be shorter. This file finds the groups in the text, proves that nothing but
separators between them is added, and concludes that a number denotes the same with groups and
without.
-/

namespace Reckoner.Answer

open Decimal

variable {separator : Char} {whole : List Char} {groups : List (List Char)}

/-! ## Groups of a run of digits -/

/-- A run of digits is cut into groups of three, counted from its end; the first group has one to
three digits. -/
structure IsGrouping (groups : List (List Char)) (whole : List Char) : Prop where
  flatten_eq : groups.flatten = whole
  length_first : ∀ first ∈ groups.head?, 1 ≤ first.length ∧ first.length ≤ 3
  length_others : ∀ group ∈ groups.tail, group.length = 3

/-- Without digits there are no groups. -/
theorem isGrouping_nil : IsGrouping [] [] where
  flatten_eq := rfl
  length_first first hfirst := by cases hfirst
  length_others := List.forall_mem_nil _

/-- Groups with a first one. -/
theorem IsGrouping.of_cons {first : List Char} {others : List (List Char)}
    (hflatten : first ++ others.flatten = whole) (hfirst : 1 ≤ first.length ∧ first.length ≤ 3)
    (hothers : ∀ group ∈ others, group.length = 3) : IsGrouping (first :: others) whole where
  flatten_eq := hflatten
  length_first group hgroup := by
    obtain rfl : first = group := Option.some.inj hgroup
    exact hfirst
  length_others := hothers

/-- A single digit can be a first group. -/
theorem length_singleton_bounds (digit : Char) : 1 ≤ [digit].length ∧ [digit].length ≤ 3 := by
  simp

/-- The groups have all digits. -/
theorem IsGrouping.length_eq {first : List Char} {others : List (List Char)}
    (h : IsGrouping (first :: others) whole) : whole.length = first.length + 3 * others.length := by
  have hothers : (others.map List.length).sum = others.length * 3 := by
    have hsum := List.sum_eq_card_nsmul (others.map List.length) 3 fun n hn => by
      obtain ⟨group, hgroup, rfl⟩ := List.mem_map.mp hn
      exact h.length_others group hgroup
    rwa [List.length_map, smul_eq_mul] at hsum
  rw [← h.flatten_eq, List.length_flatten, List.map_cons, List.sum_cons, hothers, mul_comm]

/-- A run with digits has a first group. -/
theorem IsGrouping.exists_first (h : IsGrouping groups whole) (hwhole : whole ≠ []) :
    ∃ first others, groups = first :: others := by
  refine List.exists_cons_of_ne_nil ?_
  rintro rfl
  exact hwhole h.flatten_eq.symm

/-- A digit before whole groups is a group of its own. -/
theorem IsGrouping.cons_group {first : List Char} {others : List (List Char)}
    (h : IsGrouping (first :: others) whole) (hlength : whole.length % 3 = 0) (digit : Char) :
    IsGrouping ([digit] :: first :: others) (digit :: whole) := by
  have hdigits := h.length_eq
  have hfirst := h.length_first first rfl
  refine .of_cons (congrArg (digit :: ·) h.flatten_eq) (length_singleton_bounds digit) ?_
  exact List.forall_mem_cons.mpr ⟨by omega, h.length_others⟩

/-- A digit before a group that is not whole belongs to it. -/
theorem IsGrouping.cons_digit {first : List Char} {others : List (List Char)}
    (h : IsGrouping (first :: others) whole) (hlength : whole.length % 3 ≠ 0) (digit : Char) :
    IsGrouping ((digit :: first) :: others) (digit :: whole) := by
  have hdigits := h.length_eq
  have hfirst := h.length_first first rfl
  refine .of_cons (congrArg (digit :: ·) h.flatten_eq) ?_ h.length_others
  rw [List.length_cons]
  omega

/-- What is parted from the right is the groups with separators between them. -/
theorem exists_isGrouping (separator : Char) (whole : List Char) :
    ∃ groups, IsGrouping groups whole ∧
      groupedRun separator whole = [separator].intercalate groups := by
  fun_induction groupedRun separator whole with
  | case1 => exact ⟨[], isGrouping_nil, rfl⟩
  | case2 last =>
    exact ⟨[[last]], .of_cons rfl (length_singleton_bounds last) (List.forall_mem_nil _), rfl⟩
  | case3 digit rest hrest hlength ih =>
    obtain ⟨groups, hgroups, hrun⟩ := ih
    obtain ⟨first, others, rfl⟩ := hgroups.exists_first hrest
    refine ⟨[digit] :: first :: others, hgroups.cons_group hlength digit, ?_⟩
    rw [hrun, List.intercalate_cons_cons]
    rfl
  | case4 digit rest hrest hlength ih =>
    obtain ⟨groups, hgroups, hrun⟩ := ih
    obtain ⟨first, others, rfl⟩ := hgroups.exists_first hrest
    refine ⟨(digit :: first) :: others, hgroups.cons_digit hlength digit, ?_⟩
    rw [hrun]
    cases others <;> simp [List.intercalate_cons_cons]

/-! ## The ends of a grouped text -/

/-- Separators are not put in front. -/
theorem head?_groupedRun (separator : Char) (text : List Char) :
    (groupedRun separator text).head? = text.head? := by
  fun_induction groupedRun separator text <;> rfl

/-- Separators are not put at the end. -/
theorem getLast?_groupedRun (separator : Char) (text : List Char) :
    (groupedRun separator text).getLast? = text.getLast? := by
  fun_induction groupedRun separator text with
  | case1 => rfl
  | case2 last => rfl
  | case3 digit rest hrest _ ih =>
    obtain ⟨c, others, rfl⟩ := List.exists_cons_of_ne_nil hrest
    rw [List.getLast?_cons, List.getLast?_cons, ih, List.getLast?_cons, List.getLast?_cons,
      List.getLast?_cons]
    rfl
  | case4 digit rest hrest _ ih => rw [List.getLast?_cons, ih, ← List.getLast?_cons]

theorem getLast?_groupedNumeral (separator : Char) (text : List Char) :
    (groupedNumeral separator text).getLast? = text.getLast? := by
  rw [groupedNumeral, List.getLast?_append, getLast?_groupedRun, ← List.getLast?_append,
    List.takeWhile_append_dropWhile]

theorem getLast?_grouped (print : PrintSettings) (text : List Char) :
    (grouped print text).getLast? = text.getLast? := by
  unfold grouped
  split
  · rfl
  · dsimp only
    split
    · rw [List.getLast?_cons, getLast?_groupedNumeral, ← List.getLast?_cons]
    · exact getLast?_groupedNumeral _ text

theorem head?_groupedNumeral (separator : Char) (text : List Char) :
    (groupedNumeral separator text).head? = text.head? := by
  rw [groupedNumeral, List.head?_append, head?_groupedRun, ← List.head?_append,
    List.takeWhile_append_dropWhile]

theorem head?_grouped (print : PrintSettings) (text : List Char) :
    (grouped print text).head? = text.head? := by
  unfold grouped
  split
  · rfl
  · dsimp only
    split
    · rfl
    · exact head?_groupedNumeral _ text

/-! ## Numerals in groups -/

/-- A numeral: perhaps a minus sign, digits, and perhaps a point with digits behind it. -/
def numeralText (negative : Bool) (whole : List Char) (fraction? : Option (List Char)) :
    List Char :=
  signed negative (whole ++ fraction?.elim [] ('.' :: ·))

/-- Settings with the digits before the point in groups, or without groups. -/
def withGrouping (print : PrintSettings) (grouping : DigitGrouping) : PrintSettings :=
  { print with digitGrouping := grouping }

variable {print : PrintSettings} {text : List Char} {fraction? : Option (List Char)}

/-- The point ends the digits that are set in groups. -/
theorem groupedNumeral_append (hwhole : ∀ c ∈ whole, c.isDigit = true) :
    groupedNumeral separator (whole ++ fraction?.elim [] ('.' :: ·)) =
      groupedRun separator whole ++ fraction?.elim [] ('.' :: ·) := by
  have hpoint : ∀ c ∈ whole, (c != '.') = true := fun c hc => ne_point_of_isDigit (hwhole c hc)
  unfold groupedNumeral
  rw [List.takeWhile_append_of_pos hpoint, List.dropWhile_append_of_pos hpoint]
  cases fraction? <;> simp

/-- A sign is no separator. -/
theorem not_isSeparator_signed (htext : ∀ c ∈ text, isSeparator c = false) (negative : Bool) :
    ∀ c ∈ signed negative text, isSeparator c = false :=
  forall_mem_signed (by decide) htext negative

/-- A numeral has no separators of its own. -/
theorem not_isSeparator_numeralText (hdigit : ∀ c ∈ whole ++ fraction?.getD [], c.isDigit = true)
    (negative : Bool) : ∀ c ∈ numeralText negative whole fraction?, isSeparator c = false := by
  have hnone : ∀ c ∈ whole ++ fraction?.getD [], isSeparator c = false :=
    fun c hc => isSeparator_of_isDigit (hdigit c hc)
  rw [List.forall_mem_append] at hnone
  refine not_isSeparator_signed (List.forall_mem_append.mpr ⟨hnone.1, ?_⟩) negative
  cases fraction? with
  | none => nofun
  | some fraction => exact List.forall_mem_cons.mpr ⟨by decide, hnone.2⟩

/-- The sign and the fraction of a numeral are left alone. -/
theorem grouped_numeralText (hprint : print.digitGrouping = .thousands) (negative : Bool)
    (hwhole : ∀ c ∈ whole, c.isDigit = true) :
    grouped print (numeralText negative whole fraction?) =
      numeralText negative (groupedRun (groupSeparator print.useUnicodeSigns) whole) fraction? := by
  unfold grouped numeralText
  rw [hprint]
  dsimp only
  cases negative with
  | true => exact congrArg ('-' :: ·) (groupedNumeral_append hwhole)
  | false =>
    rw [signed, if_neg (by decide), signed, if_neg (by decide)]
    split
    · next heq =>
      -- A text without a sign begins with a digit or with the point.
      cases whole with
      | nil => cases fraction? <;> cases heq
      | cons c others =>
        obtain ⟨rfl, -⟩ := List.cons.inj heq
        exact absurd (hwhole _ List.mem_cons_self) (by decide)
    · exact groupedNumeral_append hwhole

/-! ## Numbers in groups -/

/-- A text is another one with separators put in, none of them in front. -/
structure IsSeparated (long short : List Char) : Prop where
  filter_eq : long.filter (!isSeparator ·) = short
  head?_eq : long.head? = short.head?

variable {x : Float} {long short : List Char}

/-- A text without separators is kept when they are taken out. -/
theorem filter_of_not_isSeparator (htext : ∀ c ∈ text, isSeparator c = false) :
    text.filter (!isSeparator ·) = text :=
  List.filter_eq_self.mpr fun c hc => by rw [htext c hc]; rfl

/-- A text without separators is not separated. -/
theorem IsSeparated.refl (htext : ∀ c ∈ text, isSeparator c = false) : IsSeparated text text :=
  ⟨filter_of_not_isSeparator htext, rfl⟩

/-- Grouping puts in separators. -/
theorem isSeparated_grouped (print : PrintSettings)
    (htext : ∀ c ∈ text, isSeparator c = false) : IsSeparated (grouped print text) text :=
  ⟨(filter_grouped print text).trans (filter_of_not_isSeparator htext), head?_grouped print text⟩

/-- A text that begins with a sign still does when separators are put in. -/
theorem IsSeparated.exists_sign {others : List Char} (h : IsSeparated long ('-' :: others)) :
    ∃ others', long = '-' :: others' ∧ others'.filter (!isSeparator ·) = others := by
  obtain ⟨others', rfl⟩ := List.head?_eq_some_iff.mp h.head?_eq
  refine ⟨others', rfl, ?_⟩
  have hfilter := h.filter_eq
  rw [List.filter_cons_of_pos (by decide)] at hfilter
  exact (List.cons.inj hfilter).2

/-- Separators do not stand in the way of a typographic sign. -/
theorem IsSeparated.typographic (h : IsSeparated long short) (print : PrintSettings) :
    (typographic print long).filter (!isSeparator ·) = typographic print short := by
  by_cases hsign : short.head? = some '-'
  · obtain ⟨others, rfl⟩ := List.head?_eq_some_iff.mp hsign
    obtain ⟨others', rfl, hothers⟩ := h.exists_sign
    show (if print.useUnicodeSigns then '−' :: others' else '-' :: others').filter _ =
      if print.useUnicodeSigns then '−' :: others else '-' :: others
    split <;> rw [List.filter_cons_of_pos (by decide), hothers]
  · rw [typographic_of_head?_ne hsign, typographic_of_head?_ne (h.head?_eq ▸ hsign), h.filter_eq]

/-- Positional notation has no separators. -/
theorem DenotesAt.not_isSeparator {q : ℚ} (h : DenotesAt text q) :
    ∀ c ∈ text, isSeparator c = false := by
  obtain ⟨whole, fraction, hnumeral, -⟩ := h
  exact hnumeral.not_isSeparator

theorem not_isSeparator_fixed (places : Nat) (x : Float) :
    ∀ c ∈ fixed places x, isSeparator c = false := by
  unfold fixed
  split
  · exact not_isSeparator_signed (denotesAt_withPoint _ places).not_isSeparator _
  · nofun

theorem not_isSeparator_significantText (x : Float) :
    ∀ c ∈ significantText x, isSeparator c = false := by
  unfold significantText
  split
  · have htrimmed (n places : Nat) := (denotesAt_withPoint n places).trimFraction.not_isSeparator
    dsimp only
    split
    · exact htrimmed _ _
    · exact not_isSeparator_signed (htrimmed _ _) _
  · nofun

theorem not_isSeparator_exponentialText (print : PrintSettings) (num den : Nat) :
    ∀ c ∈ exponentialText print num den, isSeparator c = false := by
  obtain ⟨rest, htext, hrest, -, -⟩ := exponentialText_eq print num den
  rw [htext]
  exact List.forall_mem_append.mpr
    ⟨(denotesAt_withPoint _ _).trimFraction.not_isSeparator, hrest⟩

/-- Digits that are read in a base have no separators between them. -/
theorem not_isSeparator_of_foldlM {base n m : Nat} {digits : List Char}
    (hread : digits.foldlM (withDigit? base) n = some m) :
    ∀ c ∈ digits, isSeparator c = false := by
  induction digits generalizing n with
  | nil => nofun
  | cons digit others ih =>
    rw [List.foldlM_cons] at hread
    obtain ⟨n', hdigit, hothers⟩ := Option.bind_eq_some_iff.mp hread
    refine List.forall_mem_cons.mpr ⟨?_, ih hothers⟩
    by_contra hseparator
    rw [Bool.not_eq_false, isSeparator, Bool.or_eq_true, beq_iff_eq, beq_iff_eq] at hseparator
    rcases hseparator with rfl | rfl <;> cases hdigit

theorem not_isSeparator_digitsInBase (base n : Nat) :
    ∀ c ∈ digitsInBase base n, isSeparator c = false := by
  by_cases hbase : base = 2 ∨ base = 8 ∨ base = 16
  · obtain ⟨hread, -, -⟩ := writesInBase_digitsInBase hbase n
    unfold readInBase? at hread
    split at hread
    · cases hread
    · exact not_isSeparator_of_foldlM hread
  · rw [digitsInBase, if_neg hbase]
    exact fun c hc => isSeparator_of_isDigit (isDigit_digits n c hc)

theorem not_isSeparator_baseMark (display : BaseDisplay) (base : Nat) :
    ∀ c ∈ baseMark display base, isSeparator c = false := by
  unfold baseMark
  split
  · nofun
  · split_ifs <;> simp [isSeparator]

/-- Groups in a finite number put in separators. -/
theorem isSeparated_finiteText (print : PrintSettings) (decimals : Option Nat) (x : Float)
    (negative : Bool) (m : Nat) (e : ℤ) :
    IsSeparated (finiteText (withGrouping print .thousands) decimals x negative m e)
      (finiteText (withGrouping print .ungrouped) decimals x negative m e) := by
  unfold withGrouping finiteText
  dsimp only
  by_cases hinteger : print.base ≠ 10 ∧ (Binary64.finite negative m e).isIntegral = true ∧
      (Binary64.finite negative m e).wholePart < Nat.pow 2 53
  · rw [if_pos hinteger, if_pos hinteger]
    exact .refl (not_isSeparator_signed (List.forall_mem_append.mpr
      ⟨not_isSeparator_baseMark _ _, not_isSeparator_digitsInBase _ _⟩) _)
  · rw [if_neg hinteger, if_neg hinteger]
    cases decimals with
    | some places => exact isSeparated_grouped _ (not_isSeparator_fixed places x)
    | none =>
      dsimp only
      split
      · exact isSeparated_grouped _ (not_isSeparator_significantText x)
      · exact .refl (not_isSeparator_signed (not_isSeparator_exponentialText _ _ _) negative)

/-- The separators of a number, taken out, leave the number without groups. -/
theorem filter_number (print : PrintSettings) (decimals : Option Nat) (x : Float) :
    (number (withGrouping print .thousands) decimals x).toList.filter (!isSeparator ·) =
      (number (withGrouping print .ungrouped) decimals x).toList := by
  rw [number, number, String.toList_ofList, String.toList_ofList]
  unfold numberChars
  cases Binary64.ofFloat x with
  | nan =>
    show "undefined".toList.filter (!isSeparator ·) = "undefined".toList
    decide
  | infinite negative =>
    have hname (unicode : Bool) : ∀ c ∈ (if unicode = true then "∞" else "infinity").toList,
        isSeparator c = false := by
      cases unicode <;> simp [isSeparator]
    exact IsSeparated.typographic (.refl (not_isSeparator_signed (hname _) negative)) _
  | finite negative m e =>
    exact (isSeparated_finiteText print decimals x negative m e).typographic _

/-- Separators make no difference to the number that a text denotes. -/
theorem denoted_eq_of_filter_eq (htext : long.filter (!isSeparator ·) = short) :
    denoted long = denoted short := by
  have hshort : short.filter (!isSeparator ·) = short := by
    rw [← htext, List.filter_filter]
    simp only [Bool.and_self]
  unfold denoted
  rw [htext, hshort]

/-- Grouping cuts the digits before the point of a numeral into groups of three, of which only the
first may be shorter, and puts a separator between two of them; taken out again, these leave the
numeral. So a number has the same text in groups but for the separators, and denotes the same. -/
theorem grouped_thousands (print : PrintSettings) :
    (∀ (negative : Bool) (whole : List Char) (fraction? : Option (List Char)),
      (∀ c ∈ whole ++ fraction?.getD [], c.isDigit = true) →
      let text := numeralText negative whole fraction?
      let long := grouped (withGrouping print .thousands) text
      long.filter (!isSeparator ·) = text ∧
        ∃ groups, IsGrouping groups whole ∧
          let parted := [groupSeparator print.useUnicodeSigns].intercalate groups
          long = numeralText negative parted fraction? ∧
            (∀ c ∈ parted.head?, isSeparator c = false) ∧
            ∀ c ∈ parted.getLast?, isSeparator c = false) ∧
    ∀ (decimals : Option Nat) (x : Float),
      let short := (number (withGrouping print .ungrouped) decimals x).toList
      let long := (number (withGrouping print .thousands) decimals x).toList
      long.filter (!isSeparator ·) = short ∧ denoted long = denoted short := by
  refine ⟨fun negative whole fraction? hdigit => ?_, fun decimals x => ?_⟩
  · have hwhole : ∀ c ∈ whole, c.isDigit = true :=
      fun c hc => hdigit c (List.mem_append_left _ hc)
    have hnone : ∀ c ∈ whole, isSeparator c = false :=
      fun c hc => isSeparator_of_isDigit (hwhole c hc)
    obtain ⟨groups, hgroups, hparted⟩ :=
      exists_isGrouping (groupSeparator print.useUnicodeSigns) whole
    refine ⟨?_, groups, hgroups, ?_, fun c hc => ?_, fun c hc => ?_⟩
    · rw [filter_grouped]
      exact filter_of_not_isSeparator (not_isSeparator_numeralText hdigit negative)
    · rw [← hparted]
      exact grouped_numeralText rfl negative hwhole
    · rw [← hparted, head?_groupedRun] at hc
      exact hnone c (List.mem_of_mem_head? hc)
    · rw [← hparted, getLast?_groupedRun] at hc
      exact hnone c (List.mem_of_mem_getLast? hc)
  · have htext := filter_number print decimals x
    exact ⟨htext, denoted_eq_of_filter_eq htext⟩

/-- Seven digits are cut into three groups, and the fraction and the sign are kept. -/
theorem grouped_thousands_seven_digits :
    let text := numeralText true "1234567".toList (some "25".toList)
    text = "-1234567.25".toList ∧
      grouped (withGrouping {} .thousands) text = "-1 234 567.25".toList ∧
      (grouped (withGrouping {} .thousands) text).filter (!isSeparator ·) = text := by
  intro text
  have hdigit : ∀ c ∈ "1234567".toList ++ (some "25".toList).getD [], c.isDigit = true :=
    List.all_eq_true.mp (by decide)
  exact ⟨by decide, by decide, ((grouped_thousands {}).1 true _ _ hdigit).1⟩

end Reckoner.Answer
