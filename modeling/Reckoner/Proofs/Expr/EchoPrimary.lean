import Reckoner.Proofs.Expr.EchoOperand

/-!
# Single operands of a canonical text

Names, numbers, calls, powers and what is in parentheses are read as one part, whatever chain they
stand in. The arguments of a call and the insides of parentheses are whole texts, each with its own
conversion.
-/

namespace Reckoner.Expr

open Reckoner.Expr.Parser Reckoner.Text Reckoner.Token

/-! ## Single operands -/

/-- Signs before what is read as an operand take a level each. -/
theorem signed_signText {text rest : List Char} {needed : Nat} {e : Expr}
    (hread : ∀ n, (Level.withAllowance n).signed text = within needed n (.ok (e, rest)))
    (n signs : Nat) : (Level.withAllowance n).signed (Before.signText ⟨none, signs⟩ text) =
      within (signs + needed) n (.ok (negated signs e, rest)) := by
  induction signs generalizing n with
  | zero =>
    rw [Nat.zero_add]
    exact hread n
  | succ signs ih =>
    cases n with
    | zero =>
      rw [within_of_lt (by omega)]
      rfl
    | succ n =>
      have htext : Before.signText ⟨none, signs + 1⟩ text =
          '-' :: Before.signText ⟨none, signs⟩ text := by
        simp [Before.signText, List.replicate_succ]
      rw [htext, signed_minus, ih n, within_bind, Nat.add_right_comm, within_succ]
      rfl

/-- A character that begins a primary. -/
def BeginsPrimary (c : Char) : Prop :=
  c = '(' ∨ c.isDigit = true ∨ isNameStart c = true

/-- What begins a primary is neither a blank nor a sign, and does not end anything. -/
theorem BeginsPrimary.plain {c : Char} (hc : BeginsPrimary c) :
    isBlank c = false ∧ c ≠ '-' ∧ c ≠ '+' ∧ c ≠ ')' ∧ c ≠ ',' := by
  rcases hc with rfl | hdigit | hname
  · decide
  · have hblank : isBlank c = false := by
      by_contra hblank
      have h := (not_name_of_isBlank (by simpa using hblank)).2
      rw [isNamePart_of_isDigit hdigit] at h
      simp at h
    have hother : ∀ d ∈ ['-', '+', ')', ','], d.isDigit = false := forall_mem_of_all (by decide)
    refine ⟨hblank, ?_, ?_, ?_, ?_⟩ <;>
    · rintro rfl
      simp [hother] at hdigit
  · have h := isNameStart_ne hname
    exact ⟨isBlank_of_isNameStart hname, h _ (by decide), h _ (by decide), h _ (by decide),
      h _ (by decide)⟩

namespace Operand

/-- The operand is read as a primary. -/
def ReadsPrimary (o : Operand) : Prop :=
  ∀ (n : Nat) (rest : List Char), Parted rest →
    (o.endsInName = true → ∀ after, skipBlanks rest ≠ '(' :: after) →
    ∃ after, skipBlanks after = skipBlanks rest ∧
      (Level.withAllowance n).primary (o.text ++ rest) =
        within (o.levels 0) (n + 1) (.ok (o.place .nothing, after))

/-- An operand in parentheses, a number, a name or a call. -/
structure IsPrimary (o : Operand) : Prop where
  reads : o.ReadsPrimary
  begins : ∃ c others, o.text = c :: others ∧ BeginsPrimary c
  place_eq (signs : Nat) : o.place ⟨none, signs⟩ = negated signs (o.place .nothing)
  levels_eq (signs : Nat) : o.levels signs = signs + o.levels 0
  trailingUnit_eq : o.trailingUnit = none
  openChain?_eq : o.openChain? = none

variable {o : Operand}

/-- Without a conversion at its end, an operand is read up to what follows. -/
theorem tail_of_none (hunit : o.trailingUnit = none) (rest : List Char) : o.tail rest = rest := by
  simp only [tail, hunit]

/-- The conversion of a trailing unit is left with what follows the operand. -/
theorem tail_of_some {unit : String} (hunit : o.trailingUnit = some unit) (rest : List Char) :
    o.tail rest = " to ".toList ++ (unit.toList ++ rest) := by
  simp only [tail, hunit]

/-- A primary starts an operand without a sign. -/
theorem IsPrimary.signed_eq (ho : o.IsPrimary) (n : Nat) (rest : List Char) :
    (Level.withAllowance (n + 1)).signed (o.text ++ rest) =
      (Level.withAllowance n).power (o.text ++ rest) := by
  obtain ⟨c, others, htext, hc⟩ := ho.begins
  obtain ⟨hblank, hminus, hplus, -⟩ := hc.plain
  rw [htext, List.cons_append]
  exact signed_of_unsigned n (skipBlanks_cons _ hblank) hminus hplus

/-- A primary that is not raised to a power is read as an operand. -/
theorem IsPrimary.readsSigned (ho : o.IsPrimary) : o.ReadsSigned := by
  intro n signs rest hfollows
  rw [tail_of_none ho.trailingUnit_eq] at hfollows ⊢
  rw [ho.place_eq, ho.levels_eq]
  apply signed_signText
  intro n
  cases n with
  | zero =>
    rw [within_of_lt (o.levels_pos 0)]
    rfl
  | succ n =>
    obtain ⟨after, hafter, hread⟩ := ho.reads n rest hfollows.parted hfollows.uncalled
    rw [ho.signed_eq, power_of_end hread (by rw [hafter]; exact hfollows.unraised), hafter]

end Operand

/-- The exponent of a power is no chain of factors or summands. -/
theorem openChain?_exponent (right : Expr) :
    Operand.openChain? ⟨parenthesizesRight .pow right, right⟩ = none := by
  cases right with
  | binary op l r => cases op <;> rfl
  | _ => rfl

/-- The text of two operands with their operator. -/
theorem text_binary (op : Operator) (left right : Expr) (rest : List Char) :
    Operand.text ⟨false, .binary op left right⟩ ++ rest =
      Operand.text ⟨parenthesizesLeft op left, left⟩ ++
        (op.symbol false ++ (Operand.text ⟨parenthesizesRight op right, right⟩ ++ rest)) := by
  show echoChars false (.binary op left right) ++ rest = _
  rw [echoChars, List.append_assoc, List.append_assoc]
  rfl

/-- A power is read where its base and its exponent are. -/
theorem readsSigned_pow {left right : Expr}
    (hleft : Operand.IsPrimary ⟨parenthesizesLeft .pow left, left⟩)
    (hright : Operand.ReadsSigned ⟨parenthesizesRight .pow right, right⟩) :
    Operand.ReadsSigned ⟨false, .binary .pow left right⟩ := by
  intro n signs rest hfollows
  have htext : Operand.text ⟨false, .binary .pow left right⟩ ++ rest =
      Operand.text ⟨parenthesizesLeft .pow left, left⟩ ++
        '^' :: (Operand.text ⟨parenthesizesRight .pow right, right⟩ ++ rest) :=
    text_binary .pow left right rest
  have htail : Operand.tail ⟨false, .binary .pow left right⟩ rest =
      Operand.tail ⟨parenthesizesRight .pow right, right⟩ rest := rfl
  rw [htext, htail]
  refine signed_signText (fun n => ?_) n signs
  cases n with
  | zero =>
    rw [within_of_lt (by omega)]
    rfl
  | succ n =>
    have hcaret (text : List Char) : skipBlanks ('^' :: text) = '^' :: text :=
      skipBlanks_cons text (by decide)
    obtain ⟨after, hafter, hread⟩ := hleft.reads n
      ('^' :: (Operand.text ⟨parenthesizesRight .pow right, right⟩ ++ rest))
      ⟨by decide +kernel, by decide⟩ (fun _ text => by simp [hcaret])
    rw [hcaret] at hafter
    have hlevels := Operand.levels_pos ⟨parenthesizesRight .pow right, right⟩ 0
    rw [hleft.signed_eq, power_of_caret hread hafter]
    have hexponent : (Level.withAllowance n).signed
        (Operand.text ⟨parenthesizesRight .pow right, right⟩ ++ rest) = _ :=
      hright n 0 rest hfollows
    rw [hexponent, within_bind]
    show within _ (n + 1) (within _ (n + 1 - 1) _) = _
    rw [within_within hlevels, Nat.add_comm 1]
    rfl

/-- A name is read where nothing goes on with it. -/
theorem name_append {label : String} (hlabel : IsName label.toList) {rest : List Char}
    (hrest : Parted rest) : Parser.name (label.toList ++ rest) = .ok (label, rest) := by
  have hne : label.toList ≠ [] := by
    intro h
    rw [h] at hlabel
    exact hlabel
  rw [name_of_splitName (splitName_append hlabel hrest) hne, String.ofList_toList]

/-- A word is a name, or it is called where a parenthesis follows. -/
theorem primary_of_isWord (level : Level) {label : String} (hlabel : IsWord label.toList)
    {rest : List Char} (hrest : Parted rest) :
    level.primary (label.toList ++ rest) =
      match skipBlanks rest with
      | '(' :: inner => do
        let (arguments, rest) ← level.arguments inner
        let rest ← expect ')' rest
        .ok (.call label arguments, rest)
      | rest => .ok (.name label, rest) := by
  have hsplit := splitName_append hlabel.isName hrest
  obtain ⟨c, others, htext, hc⟩ := hlabel.begins
  rw [htext, List.cons_append] at hsplit
  have hstart : skipBlanks (label.toList ++ rest) = c :: (others ++ rest) := by
    rw [htext, List.cons_append]
    exact skipBlanks_cons _ (isBlank_of_isNameStart hc)
  have hprimary := primary_of_name level hstart hc hsplit
  rw [← htext, String.ofList_toList] at hprimary
  exact hprimary

/-- A number is read as a primary. -/
theorem isPrimary_number {value : Float} {m : Nat} {exponent : ℤ}
    (hvalue : Binary64.ofFloat value = .finite false m exponent) :
    Operand.IsPrimary ⟨false, .number value⟩ where
  reads n rest hparted _ := by
    obtain ⟨c, others, htext, hdigit⟩ := Decimal.plain_begins hvalue
    have hnumber := Decimal.number_plain hvalue hparted
    refine ⟨rest, rfl, ?_⟩
    show Level.primary _ (Decimal.plain value ++ rest) = within 1 (n + 1) _
    have hblank := (BeginsPrimary.plain (.inr (.inl hdigit))).1
    rw [htext, List.cons_append] at hnumber ⊢
    rw [primary_of_digit _ (skipBlanks_cons _ hblank) (.inl hdigit), hnumber, within_succ]
    rfl
  begins := by
    obtain ⟨c, others, htext, hdigit⟩ := Decimal.plain_begins hvalue
    exact ⟨c, others, htext, .inr (.inl hdigit)⟩
  place_eq _ := rfl
  levels_eq signs := rfl
  trailingUnit_eq := rfl
  openChain?_eq := rfl

/-- A name is read as a primary. -/
theorem isPrimary_name {label : String} (hlabel : IsWord label.toList) :
    Operand.IsPrimary ⟨false, .name label⟩ where
  reads n rest hparted huncalled := by
    refine ⟨skipBlanks rest, skipBlanks_skipBlanks rest, ?_⟩
    show Level.primary _ (label.toList ++ rest) = within 1 (n + 1) _
    rw [primary_of_isWord _ hlabel hparted, within_succ]
    split
    · next hparen => exact (huncalled rfl _ hparen).elim
    · rfl
  begins := by
    obtain ⟨c, others, htext, hc⟩ := hlabel.begins
    exact ⟨c, others, htext, .inr (.inr hc)⟩
  place_eq _ := rfl
  levels_eq _ := rfl
  trailingUnit_eq := rfl
  openChain?_eq := rfl

/-! ## Conversions, parentheses and calls -/

/-- An expression is read up to where it is closed, with a conversion at its end. -/
def ReadsWhole (e : Expr) : Prop :=
  ∀ (n : Nat) (rest : List Char), Closes rest →
    (Level.withAllowance n).conversion (e.echoChars false ++ rest) =
      within (e.levels 0) n (.ok (e.reread, rest))

/-- What closes an expression stops all phrases. -/
theorem Closes.follows {rest : List Char} (hrest : Closes rest) (kind : Chain) (named : Bool) :
    Follows kind named rest ∧ skipBlanks rest = rest ∧ sumOperator? rest = none ∧
      afterTo? rest = none := by
  obtain ⟨hskip, hfactor, hsum, hto, huncalled, hunraised⟩ := hrest.ends
  have hparted : Parted rest := by
    rcases hrest with rfl | ⟨c, others, rfl, hc⟩
    · trivial
    · have hplain : ∀ d ∈ [')', ','], isNamePart d = false ∧ d ≠ '.' :=
        forall_mem_of_all (by decide +kernel)
      exact hplain c (by simpa using hc)
  refine ⟨⟨hparted, ?_, ?_, ?_⟩, hskip, hsum, hto⟩
  · intro _
    rw [hskip]
    exact huncalled
  · rw [hskip]
    exact hunraised
  · intro _
    rw [hskip]
    exact hfactor

/-- A conversion stops all phrases but its own. -/
theorem follows_to (kind : Chain) (named : Bool) (rest : List Char) :
    Follows kind named (" to ".toList ++ rest) ∧
      skipBlanks (" to ".toList ++ rest) = 't' :: 'o' :: ' ' :: rest ∧
      afterTo? ('t' :: 'o' :: ' ' :: rest) = some (' ' :: rest) := by
  have hspace : isNamePart ' ' = false := by decide +kernel
  have hskip : skipBlanks (" to ".toList ++ rest) = 't' :: 'o' :: ' ' :: rest := by
    show skipBlanks (' ' :: 't' :: 'o' :: ' ' :: rest) = _
    rw [skipBlanks_space, skipBlanks_cons _ (by decide)]
  have hto : afterTo? ('t' :: 'o' :: ' ' :: rest) = some (' ' :: rest) :=
    afterTo?_to ⟨hspace, by decide⟩
  refine ⟨⟨⟨hspace, by decide⟩, ?_, ?_, ?_⟩, hskip, hto⟩
  · intro _ after
    rw [hskip]
    simp
  · intro after
    rw [hskip]
    simp
  · intro _
    rw [hskip]
    simp [factorOperator?, startsOperand, hto]

/-- A sum that ends is read up to the conversion after it. -/
theorem Operand.Reads.sum_eq {e : Expr} (hread : Operand.Reads ⟨false, e⟩) (n : Nat)
    {rest : List Char} (hparted : Parted rest)
    (hfollows : Follows .summands (Operand.endsInName ⟨false, e⟩) (Operand.tail ⟨false, e⟩ rest))
    (hend : sumOperator? (skipBlanks (Operand.tail ⟨false, e⟩ rest)) = none) :
    (Level.withAllowance n).sum (e.echoChars false ++ rest) = within (e.levels 0) n
      (.ok (e.place .nothing, skipBlanks (Operand.tail ⟨false, e⟩ rest))) := by
  have hstart := hread.summands n .nothing rest (by simp [Before.Admits, Before.nothing])
    (fun _ => rfl) hparted hfollows
  rw [Chain.more_of_end .summands _ _ hend] at hstart
  refine Eq.trans hstart ?_
  show within (0 + _) n _ = _
  rw [Nat.zero_add]
  rfl

/-- What is read among summands is read as a whole. -/
theorem Operand.Reads.readsWhole {e : Expr} (hread : Operand.Reads ⟨false, e⟩)
    (hunit : ∀ unit, e.trailingUnit = some unit → IsName unit.toList) : ReadsWhole e := by
  intro n rest hrest
  obtain ⟨hfollows, hskip, hsum, hto⟩ := hrest.follows .summands (Operand.endsInName ⟨false, e⟩)
  cases hconversion : e.trailingUnit with
  | none =>
    have htail : Operand.tail ⟨false, e⟩ rest = rest :=
      Operand.tail_of_none (o := ⟨false, e⟩) hconversion rest
    have hread' := hread.sum_eq n hfollows.parted (by rw [htail]; exact hfollows)
      (by rw [htail, hskip]; exact hsum)
    rw [htail, hskip] at hread'
    rw [conversion_of_end hread' (by rw [hskip]; exact hto), hskip, reread, hconversion]
    rfl
  | some unit =>
    have htail : Operand.tail ⟨false, e⟩ rest = " to ".toList ++ (unit.toList ++ rest) :=
      Operand.tail_of_some (o := ⟨false, e⟩) hconversion rest
    obtain ⟨hstop, hskipto, hafter⟩ :=
      follows_to .summands (Operand.endsInName ⟨false, e⟩) (unit.toList ++ rest)
    have hread' := hread.sum_eq n hfollows.parted (by rw [htail]; exact hstop)
      (by rw [htail, hskipto]; rfl)
    rw [htail, hskipto] at hread'
    have hname := hunit unit hconversion
    rw [conversion_of_to hread' (by rw [skipBlanks_cons _ (by decide)]; exact hafter)
      (by rw [skipBlanks_space, skipBlanks_name hname]; exact name_append hname hfollows.parted),
      reread, hconversion]
    rfl

/-- Parentheses are read with what they enclose. -/
theorem primary_of_paren {level : Level} {text rest : List Char} {n needed : Nat} {e : Expr}
    (hinner : level.conversion text = within needed n (.ok (e, ')' :: rest))) :
    level.primary ('(' :: text) = within needed n (.ok (e, rest)) := by
  rw [primary_of_parenthesis level (skipBlanks_cons text (by decide)), hinner, within_bind]
  refine congrArg (within needed n) ?_
  show (do
    let rest ← expect ')' (skipBlanks (')' :: rest))
    .ok (e, rest)) = _
  rw [skipBlanks_cons _ (by decide)]
  rfl

/-- An expression in parentheses is read as a primary. -/
theorem isPrimary_enclosed {e : Expr} (hread : ReadsWhole e) : Operand.IsPrimary ⟨true, e⟩ where
  reads n rest _ _ := by
    refine ⟨rest, rfl, ?_⟩
    have hinner := hread n (')' :: rest) (.inr ⟨')', rest, rfl, .inl rfl⟩)
    have htext : Operand.text ⟨true, e⟩ ++ rest = '(' :: (e.echoChars false ++ ')' :: rest) := by
      simp [Operand.text, enclosed]
    have hlevels : Operand.levels ⟨true, e⟩ 0 = e.levels 0 + 1 := Nat.zero_add _
    rw [htext, hlevels, within_succ, primary_of_paren hinner]
    rfl
  begins := ⟨'(', e.echoChars false ++ [')'], rfl, .inl rfl⟩
  place_eq _ := rfl
  levels_eq signs := by simp [Operand.levels, enclosedLevels]
  trailingUnit_eq := rfl
  openChain?_eq := rfl

/-- An operand in parentheses is read wherever it may stand. -/
theorem Operand.IsPrimary.reads_anywhere {o : Operand} (ho : o.IsPrimary) : o.Reads :=
  .of_signed ho.openChain?_eq ho.readsSigned

/-- A canonical text begins with a sign or a primary. -/
def Begins (text : List Char) : Prop :=
  ∃ c others, text = c :: others ∧ (c = '-' ∨ BeginsPrimary c)

/-- Arguments are read one after the other. -/
theorem commaSeparated_echoArguments (n : Nat) (rest : List Char) (first : Expr)
    (others : List Expr) (hread : ∀ e ∈ first :: others, ReadsWhole e) (count : Nat)
    (hcount : others.length ≤ count) :
    Parser.commaSeparated (Level.withAllowance n).conversion (count + 1)
        (echoArguments false (first :: others) ++ ')' :: rest) =
      within (maxLevels (first :: others)) n (.ok (rereadAll (first :: others), ')' :: rest)) := by
  have hfirst := hread first List.mem_cons_self n
  induction others generalizing first count with
  | nil =>
    have hmost : maxLevels [first] = first.levels 0 := Nat.max_zero _
    rw [hmost]
    exact commaSeparated_last (hfirst (')' :: rest) (.inr ⟨')', rest, rfl, .inl rfl⟩))
  | cons second others ih =>
    cases count with
    | zero => simp at hcount
    | succ count =>
      have hmore : ∀ e ∈ second :: others, ReadsWhole e := fun e he =>
        hread e (List.mem_cons_of_mem first he)
      have hothers := ih second hmore count (by simpa using hcount)
        (hmore second List.mem_cons_self n)
      have hblank := conversion_congr n
        (skipBlanks_space (echoArguments false (second :: others) ++ ')' :: rest))
      rw [← commaSeparated_congr hblank] at hothers
      have htext : echoArguments false (first :: second :: others) ++ ')' :: rest =
          first.echoChars false ++
            ',' :: ' ' :: (echoArguments false (second :: others) ++ ')' :: rest) := by
        rw [echoArguments, List.append_assoc, List.append_assoc]
        rfl
      rw [htext]
      exact commaSeparated_more (hfirst _ (.inr ⟨',', _, rfl, .inr rfl⟩)) hothers

/-- Arguments make a text as long as their number at least. -/
theorem length_echoArguments (arguments : List Expr) :
    arguments.length ≤ (echoArguments false arguments).length + 1 := by
  induction arguments with
  | nil => exact Nat.zero_le _
  | cons first others ih =>
    cases others with
    | nil => simp
    | cons second others =>
      rw [echoArguments, List.length_append, List.length_append]
      simp only [List.length_cons] at ih ⊢
      show _ ≤ _ + 2 + _ + 1
      omega

/-- The arguments of a call are read up to the closing parenthesis. -/
theorem arguments_echoArguments (n : Nat) (rest : List Char) {arguments : List Expr}
    (hread : ∀ e ∈ arguments, ReadsWhole e)
    (hbegins : ∀ e ∈ arguments, Begins (e.echoChars false)) :
    (Level.withAllowance n).arguments (echoArguments false arguments ++ ')' :: rest) =
      within (maxLevels arguments) n (.ok (rereadAll arguments, ')' :: rest)) := by
  cases arguments with
  | nil => rfl
  | cons first others =>
    obtain ⟨c, more, htext, hc⟩ := hbegins first List.mem_cons_self
    have hlength := length_echoArguments (first :: others)
    have hstart : ∃ more, echoArguments false (first :: others) ++ ')' :: rest = c :: more := by
      cases others with
      | nil => exact ⟨more ++ ')' :: rest, by rw [echoArguments, htext]; rfl⟩
      | cons second others =>
        exact ⟨_, by rw [echoArguments, htext, List.append_assoc, List.append_assoc]; rfl⟩
    have hplain : isBlank c = false ∧ c ≠ ')' := by
      rcases hc with rfl | hc
      · decide
      · exact ⟨hc.plain.1, hc.plain.2.2.2.1⟩
    have hseparated := commaSeparated_echoArguments n rest first others hread
      (echoArguments false (first :: others) ++ ')' :: rest).length
      (by simp only [List.length_append, List.length_cons] at hlength ⊢; omega)
    obtain ⟨more, hmore⟩ := hstart
    rw [hmore] at hseparated ⊢
    unfold Level.arguments
    rw [skipBlanks_cons _ hplain.1]
    split
    · simp_all
    · exact hseparated

/-- A call is read as a primary. -/
theorem isPrimary_call {function : String} {arguments : List Expr}
    (hfunction : IsWord function.toList) (hread : ∀ e ∈ arguments, ReadsWhole e)
    (hbegins : ∀ e ∈ arguments, Begins (e.echoChars false)) :
    Operand.IsPrimary ⟨false, .call function arguments⟩ where
  reads n rest _ _ := by
    refine ⟨rest, rfl, ?_⟩
    have htext : Operand.text ⟨false, .call function arguments⟩ ++ rest =
        function.toList ++ '(' :: (echoArguments false arguments ++ ')' :: rest) := by
      show echoChars false (.call function arguments) ++ rest = _
      simp [echoChars]
    have hlevels : Operand.levels ⟨false, .call function arguments⟩ 0 = maxLevels arguments + 1 :=
      Nat.zero_add _
    have hparted : Parted ('(' :: (echoArguments false arguments ++ ')' :: rest)) :=
      ⟨by decide +kernel, by decide⟩
    rw [htext, hlevels, primary_of_isWord _ hfunction hparted, skipBlanks_cons _ (by decide),
      within_succ]
    show ((Level.withAllowance n).arguments _ >>= _) = _
    rw [arguments_echoArguments n rest hread hbegins, within_bind]
    rfl
  begins := by
    obtain ⟨c, others, htext, hc⟩ := hfunction.begins
    refine ⟨c, others ++ ('(' :: echoArguments false arguments ++ [')']), ?_, .inr (.inr hc)⟩
    show echoChars false (.call function arguments) = _
    rw [echoChars, htext]
    simp
  place_eq _ := rfl
  levels_eq signs := by simp only [Operand.levels, enclosedLevels, levels]; simp
  trailingUnit_eq := rfl
  openChain?_eq := rfl

end Reckoner.Expr
