import Reckoner.Proofs.Expr.Grammar
import Reckoner.Proofs.Expr.Token

/-!
# Reading forward

Equations for what the parsers of a level do at the front of a text: blanks in front do not matter,
signs take a level each, and a chain goes on by one operator and its operand. What is read is either
the given outcome, if the allowance covers the levels that it needs, or too deep.
-/

namespace Reckoner.Expr

open Reckoner.Expr.Parser Reckoner.Text Reckoner.Token

/-! ## Outcomes under an allowance -/

/-- The outcome of reading that needs some levels. -/
def within {α : Type} (needed allowance : Nat) (outcome : Except ParseError α) :
    Except ParseError α :=
  if needed ≤ allowance then outcome else .error .tooDeep

/-- Reading goes on within the levels of its first step. -/
theorem within_bind {α β : Type} (needed allowance : Nat) (outcome : Except ParseError α)
    (next : α → Except ParseError β) :
    (within needed allowance outcome >>= next) = within needed allowance (outcome >>= next) := by
  unfold within
  split <;> rfl

/-- A step that needs levels of what is left needs as many more at the start. -/
theorem within_within {α : Type} {first second spent allowance : Nat} (hsecond : 0 < second)
    (outcome : Except ParseError α) :
    within first allowance (within second (allowance - spent) outcome) =
      within (max first (spent + second)) allowance outcome := by
  unfold within
  split
  · next hfirst =>
    by_cases hboth : spent + second ≤ allowance
    · rw [if_pos (by omega), if_pos (by omega)]
    · rw [if_neg (by omega), if_neg (by omega)]
  · rw [if_neg (by omega)]

/-- Two steps that start with the same levels need what the more demanding of them needs. -/
theorem within_max {α : Type} (first second allowance : Nat) (outcome : Except ParseError α) :
    within first allowance (within second allowance outcome) =
      within (max first second) allowance outcome := by
  unfold within
  by_cases hboth : max first second ≤ allowance
  · rw [if_pos (by omega), if_pos (by omega), if_pos hboth]
  · rw [if_neg hboth]
    split
    · rw [if_neg (by omega)]
    · rfl

/-- What needs more levels than there are is too deep. -/
theorem within_of_lt {α : Type} {needed allowance : Nat} (h : allowance < needed)
    (outcome : Except ParseError α) : within needed allowance outcome = .error .tooDeep :=
  if_neg (by omega)

/-- What needs no levels is never too deep. -/
theorem within_zero {α : Type} (allowance : Nat) (outcome : Except ParseError α) :
    within 0 allowance outcome = outcome :=
  if_pos allowance.zero_le

/-- One level more on both sides makes no difference. -/
theorem within_succ {α : Type} (needed allowance : Nat) (outcome : Except ParseError α) :
    within (needed + 1) (allowance + 1) outcome = within needed allowance outcome := by
  unfold within
  split
  · rw [if_pos (by omega)]
  · rw [if_neg (by omega)]

/-! ## Blanks in front -/

/-- A text that does not start with a blank stays as it is. -/
theorem skipBlanks_cons {c : Char} (text : List Char) (hc : isBlank c = false) :
    skipBlanks (c :: text) = c :: text :=
  List.dropWhile_cons_of_neg (by simp [hc])

/-- A blank in front is skipped. -/
@[simp] theorem skipBlanks_space (text : List Char) :
    skipBlanks (' ' :: text) = skipBlanks text :=
  List.dropWhile_cons_of_pos (by decide)

/-- All blanks in front are skipped at once. -/
@[simp] theorem skipBlanks_skipBlanks (text : List Char) :
    skipBlanks (skipBlanks text) = skipBlanks text := by
  cases h : skipBlanks text with
  | nil => rfl
  | cons c rest => exact skipBlanks_cons rest (skipBlanks_head h)

/-- A name has no blanks in front. -/
theorem skipBlanks_name {label : List Char} (hlabel : IsName label) (rest : List Char) :
    skipBlanks (label ++ rest) = label ++ rest := by
  cases label with
  | nil => exact hlabel.elim
  | cons c others =>
    apply skipBlanks_cons
    by_contra hblank
    have h := not_name_of_isBlank (by simpa using hblank)
    have hc := hlabel.1
    simp [h.1, h.2] at hc

/-! ## What starts an operand and what ends an expression -/

/-- A text that starts an operand starts with no blank and no operator. -/
theorem startsOperand_head {text : List Char} (htext : startsOperand text = true) :
    ∃ c others, text = c :: others ∧ (c = '(' ∨ isNameStart c = true) := by
  cases text with
  | nil => simp [startsOperand] at htext
  | cons c others =>
    simp only [startsOperand, Bool.or_eq_true, beq_iff_eq, Bool.and_eq_true] at htext
    exact ⟨c, others, rfl, htext.imp id And.left⟩

/-- A text that starts an operand has no blanks in front. -/
theorem skipBlanks_of_startsOperand {text : List Char} (htext : startsOperand text = true) :
    skipBlanks text = text := by
  obtain ⟨c, others, rfl, hc⟩ := startsOperand_head htext
  apply skipBlanks_cons
  rcases hc with rfl | hc
  · decide
  · exact isBlank_of_isNameStart hc

/-- An operand that directly follows multiplies. -/
theorem factorOperator?_of_startsOperand {text : List Char} (htext : startsOperand text = true) :
    factorOperator? text = some (.juxtapose, text) := by
  obtain ⟨c, others, rfl, hc⟩ := startsOperand_head htext
  have hstar : c ≠ '*' := by
    rcases hc with rfl | hc
    · decide
    · exact isNameStart_ne hc _ (by decide)
  have hslash : c ≠ '/' := by
    rcases hc with rfl | hc
    · decide
    · exact isNameStart_ne hc _ (by decide)
  unfold factorOperator?
  split
  · simp_all
  · simp_all
  · rw [if_pos htext]

/-- What may follow a whole expression: the end, or what ends an argument or parentheses. -/
def Closes (rest : List Char) : Prop :=
  rest = [] ∨ ∃ c others, rest = c :: others ∧ (c = ')' ∨ c = ',')

/-- What closes an expression goes on with no phrase. -/
theorem Closes.ends {rest : List Char} (hrest : Closes rest) :
    skipBlanks rest = rest ∧ factorOperator? rest = none ∧ sumOperator? rest = none ∧
      afterTo? rest = none ∧ (∀ after, rest ≠ '(' :: after) ∧ ∀ after, rest ≠ '^' :: after := by
  rcases hrest with rfl | ⟨c, others, rfl, hc⟩
  · exact ⟨rfl, rfl, rfl, rfl, by simp, by simp⟩
  · have hplain : ∀ d ∈ [')', ','], isBlank d = false ∧ isNameStart d = false :=
      forall_mem_of_all (by decide +kernel)
    obtain ⟨hblank, hstart⟩ := hplain c (by simpa using hc)
    have hfactor : factorOperator? (c :: others) = none := by
      rcases hc with rfl | rfl <;> simp [factorOperator?, startsOperand, hstart]
    refine ⟨skipBlanks_cons others hblank, hfactor, ?_⟩
    rcases hc with rfl | rfl <;> exact ⟨rfl, rfl, by simp, by simp⟩

/-! ## Chains -/

namespace Chain

/-- The parser of the operands of a chain. -/
def operandParser : Chain → Level → Parser Expr
  | .factors, level => level.signed
  | .summands, level => level.term

/-- The parser of the rest of a chain. -/
def more : Chain → Level → Expr → Parser Expr
  | .factors, level => level.moreFactors
  | .summands, level => level.moreSummands

/-- The parser of a chain. -/
def whole : Chain → Level → Parser Expr
  | .factors, level => level.term
  | .summands, level => level.sum

/-- A chain is an operand and the rest. -/
theorem whole_eq (kind : Chain) (level : Level) (text : List Char) :
    kind.whole level text =
      kind.operandParser level text >>= fun (left, rest) => kind.more level left rest := by
  cases kind <;> rfl

variable (kind : Chain)

/-- Where no operator follows, a chain ends. -/
theorem more_of_end (n : Nat) (left : Expr) {text : List Char}
    (hend : kind.operator? (skipBlanks text) = none) :
    kind.more (Level.withAllowance n) left text = .ok (left, skipBlanks text) := by
  cases n <;> cases kind <;>
    simp only [more, Level.withAllowance, Level.bottom, Level.above, Parser.chain] <;>
    simp only [operator?] at hend <;> rw [hend]

/-- An operator is too deep where no levels are left. -/
theorem more_zero (left : Expr) {text operandText : List Char} {op : Operator}
    (hop : kind.operator? (skipBlanks text) = some (op, operandText)) :
    kind.more (Level.withAllowance 0) left text = .error .tooDeep := by
  cases kind <;>
    simp only [more, Level.withAllowance, Level.bottom, Parser.chain] <;>
    simp only [operator?] at hop <;> rw [hop] <;> rfl

/-- After an operator, its operand is read one level down, and so is the rest of the chain. -/
theorem more_succ (n : Nat) (left : Expr) {text operandText : List Char} {op : Operator}
    (hop : kind.operator? (skipBlanks text) = some (op, operandText)) :
    kind.more (Level.withAllowance (n + 1)) left text =
      kind.operandParser (Level.withAllowance n) operandText >>= fun (right, rest) =>
        kind.more (Level.withAllowance n) (.binary op left right) rest := by
  cases kind <;>
    simp only [more, Level.withAllowance, Level.above, Parser.chain] <;>
    simp only [operator?] at hop <;> rw [hop] <;> rfl

/-- The rest of a chain is read alike after any blanks. -/
theorem more_congr (n : Nat) (left : Expr) {first second : List Char}
    (h : skipBlanks first = skipBlanks second) :
    kind.more (Level.withAllowance n) left first =
      kind.more (Level.withAllowance n) left second := by
  cases hop : kind.operator? (skipBlanks second) with
  | none => rw [more_of_end kind n left hop, more_of_end kind n left (h ▸ hop), h]
  | some found =>
    obtain ⟨op, operandText⟩ := found
    cases n with
    | zero => rw [more_zero kind left hop, more_zero kind left (h ▸ hop)]
    | succ n => rw [more_succ kind n left hop, more_succ kind n left (h ▸ hop)]

end Chain

/-- An operand with its signs is read alike after any blanks. -/
theorem signed_congr (n : Nat) {first second : List Char}
    (h : skipBlanks first = skipBlanks second) :
    (Level.withAllowance n).signed first = (Level.withAllowance n).signed second := by
  cases n with
  | zero => rfl
  | succ n =>
    show (Level.withAllowance n).operand first = (Level.withAllowance n).operand second
    unfold Level.operand
    rw [h]

/-- A sign takes a level of its own. -/
theorem signed_minus (n : Nat) (text : List Char) :
    (Level.withAllowance (n + 1)).signed ('-' :: text) =
      (Level.withAllowance n).signed text >>= fun (e, rest) => .ok (.neg e, rest) := by
  show (Level.withAllowance n).operand ('-' :: text) = _
  unfold Level.operand
  rw [skipBlanks_cons _ (by decide)]
  rfl

/-- With as many signs in front as there are levels, nothing is left for what they stand before. -/
theorem signed_replicate_minus (n : Nat) (text : List Char) :
    (Level.withAllowance n).signed (List.replicate n '-' ++ text) = .error .tooDeep := by
  induction n with
  | zero => rfl
  | succ n ih =>
    rw [List.replicate_succ, List.cons_append, signed_minus, ih]
    rfl

/-- A text that begins with as many signs as there are levels nests too deeply. -/
theorem parse_replicate_minus (text : List Char) :
    parse (String.ofList (List.replicate maxDepth '-' ++ text)) = .error .tooDeep := by
  have hbegins : List.replicate maxDepth '-' ++ text =
      '-' :: (List.replicate (maxDepth - 1) '-' ++ text) := rfl
  have hsigned := signed_replicate_minus maxDepth text
  rw [hbegins] at hsigned
  rw [parse, String.toList_ofList, hbegins, skipBlanks_cons _ (by decide)]
  unfold Level.conversion Level.sum Level.term
  dsimp only
  rw [hsigned]
  rfl

/-- A plus sign takes a level and leaves no trace. -/
theorem signed_plus (n : Nat) (text : List Char) :
    (Level.withAllowance (n + 1)).signed ('+' :: text) = (Level.withAllowance n).signed text := by
  show (Level.withAllowance n).operand ('+' :: text) = _
  unfold Level.operand
  rw [skipBlanks_cons _ (by decide)]
  rfl

/-- A primary with its power is read alike after any blanks. -/
theorem power_congr (level : Level) {first second : List Char}
    (h : skipBlanks first = skipBlanks second) : level.power first = level.power second := by
  unfold Level.power Level.primary
  rw [h]

/-- An operand without a sign is a primary with its power. -/
theorem signed_of_unsigned (n : Nat) {text others : List Char} {c : Char}
    (htext : skipBlanks text = c :: others) (hminus : c ≠ '-') (hplus : c ≠ '+') :
    (Level.withAllowance (n + 1)).signed text = (Level.withAllowance n).power text := by
  have hskip :
      (Level.withAllowance n).power (c :: others) = (Level.withAllowance n).power text := by
    rw [← htext]
    exact power_congr _ (skipBlanks_skipBlanks text)
  show (Level.withAllowance n).operand text = _
  unfold Level.operand
  rw [htext]
  split
  · next heq => exact absurd (List.cons.inj heq).1 hminus
  · next heq => exact absurd (List.cons.inj heq).1 hplus
  · exact hskip

/-- The operand of a chain is read alike after any blanks. -/
theorem Chain.operandParser_congr (kind : Chain) (n : Nat) {first second : List Char}
    (h : skipBlanks first = skipBlanks second) :
    kind.operandParser (Level.withAllowance n) first =
      kind.operandParser (Level.withAllowance n) second := by
  cases kind with
  | factors => exact signed_congr n h
  | summands =>
    show Level.term _ first = Level.term _ second
    unfold Level.term
    rw [signed_congr n h]

/-- A whole expression is read alike after any blanks. -/
theorem conversion_congr (n : Nat) {first second : List Char}
    (h : skipBlanks first = skipBlanks second) :
    (Level.withAllowance n).conversion first = (Level.withAllowance n).conversion second := by
  have hterm := Chain.operandParser_congr .summands n h
  simp only [Chain.operandParser] at hterm
  unfold Level.conversion Level.sum
  rw [hterm]

/-! ## Primaries, powers and conversions -/

/-- A parenthesis encloses a whole expression. -/
theorem primary_of_parenthesis (level : Level) {text inner : List Char}
    (htext : skipBlanks text = '(' :: inner) :
    level.primary text = level.conversion inner >>= fun (e, rest) =>
      expect ')' (skipBlanks rest) >>= fun rest => .ok (e, rest) := by
  unfold Level.primary
  rw [htext]
  rfl

/-- A digit or a point begins a number. -/
theorem primary_of_digit (level : Level) {text others : List Char} {c : Char}
    (htext : skipBlanks text = c :: others) (hc : c.isDigit = true ∨ c = '.') :
    level.primary text = Parser.number (c :: others) := by
  have hparen : c ≠ '(' := by
    rintro rfl
    simp at hc
  have hstart : (c.isDigit || c == '.') = true := by simpa using hc
  unfold Level.primary
  rw [htext]
  dsimp only
  rw [if_neg hparen, if_pos hstart]

/-- A name that is cut off is read. -/
theorem name_of_splitName {text label rest : List Char} (hsplit : splitName text = (label, rest))
    (hlabel : label ≠ []) : Parser.name text = .ok (String.ofList label, rest) := by
  unfold Parser.name
  rw [hsplit]
  split
  · next heq => exact absurd (Prod.mk.inj heq).1 hlabel
  · next heq =>
    obtain ⟨rfl, rfl⟩ := Prod.mk.inj heq
    rfl

/-- A name stands for itself, or it is called where a parenthesis follows. -/
theorem primary_of_name (level : Level) {text others label rest : List Char} {c : Char}
    (htext : skipBlanks text = c :: others) (hc : isNameStart c = true)
    (hsplit : splitName (c :: others) = (label, rest)) :
    level.primary text =
      match skipBlanks rest with
      | '(' :: inner => do
        let (arguments, rest) ← level.arguments inner
        let rest ← expect ')' rest
        .ok (.call (String.ofList label) arguments, rest)
      | rest => .ok (.name (String.ofList label), rest) := by
  have hlabel : label ≠ [] := by
    rintro rfl
    exact (isWord_of_splitName hc hsplit).isName
  have hparen : c ≠ '(' := isNameStart_ne hc _ (by decide)
  have hdigit : ¬ (c.isDigit || c == '.') = true := by
    simp [not_isDigit_of_isNameStart hc, isNameStart_ne hc '.' (by decide)]
  unfold Level.primary
  rw [htext]
  dsimp only
  rw [if_neg hparen, if_neg hdigit, if_pos hc, name_of_splitName hsplit hlabel]
  rfl

/-- A primary is raised to the power that follows it. -/
theorem power_of_caret {n needed : Nat} {text after exponentText : List Char} {base : Expr}
    (hprimary : (Level.withAllowance n).primary text = within needed (n + 1) (.ok (base, after)))
    (hcaret : skipBlanks after = '^' :: exponentText) :
    (Level.withAllowance n).power text = within needed (n + 1)
      ((Level.withAllowance n).signed exponentText >>= fun (exponent, rest) =>
        .ok (.binary .pow base exponent, rest)) := by
  rw [Level.power, hprimary, within_bind]
  simp only [bind, Except.bind, hcaret]

/-- Without a power after it, a primary stands alone. -/
theorem power_of_end {n needed : Nat} {text after : List Char} {base : Expr}
    (hprimary : (Level.withAllowance n).primary text = within needed (n + 1) (.ok (base, after)))
    (hend : ∀ exponentText, skipBlanks after ≠ '^' :: exponentText) :
    (Level.withAllowance n).power text = within needed (n + 1) (.ok (base, skipBlanks after)) := by
  rw [Level.power, hprimary, within_bind]
  -- `hend` settles which case is taken.
  simp only [bind, Except.bind]

/-- A sum without a conversion after it is read alone. -/
theorem conversion_of_end {n needed : Nat} {text after : List Char} {value : Expr}
    (hsum : (Level.withAllowance n).sum text = within needed n (.ok (value, after)))
    (hend : afterTo? (skipBlanks after) = none) :
    (Level.withAllowance n).conversion text = within needed n (.ok (value, skipBlanks after)) := by
  rw [Level.conversion, hsum, within_bind]
  simp only [bind, Except.bind, hend]

/-- A sum is converted to the unit after the keyword. -/
theorem conversion_of_to {n needed : Nat} {text after unitText rest : List Char} {value : Expr}
    {unit : String} (hsum : (Level.withAllowance n).sum text = within needed n (.ok (value, after)))
    (hto : afterTo? (skipBlanks after) = some unitText)
    (hunit : Parser.name (skipBlanks unitText) = .ok (unit, rest)) :
    (Level.withAllowance n).conversion text =
      within needed n (.ok (.convert value unit, rest)) := by
  rw [Level.conversion, hsum, within_bind]
  simp only [bind, Except.bind, hto, hunit]

/-! ## Lists between commas -/

variable {item : Parser Expr} {needed n count : Nat} {text rest : List Char} {first : Expr}

/-- The last item stands before the closing parenthesis. -/
theorem commaSeparated_last (hitem : item text = within needed n (.ok (first, ')' :: rest))) :
    commaSeparated item (count + 1) text = within needed n (.ok ([first], ')' :: rest)) := by
  show (item text >>= _) = _
  rw [hitem, within_bind]
  rfl

/-- After a comma the other items are read. -/
theorem commaSeparated_more {more : List Char} {others : List Expr} {neededMore : Nat}
    (hitem : item text = within needed n (.ok (first, ',' :: more)))
    (hothers : commaSeparated item count more = within neededMore n (.ok (others, rest))) :
    commaSeparated item (count + 1) text =
      within (max needed neededMore) n (.ok (first :: others, rest)) := by
  show (item text >>= _) = _
  rw [hitem, within_bind, ← within_max]
  refine congrArg (within needed n) ?_
  show (commaSeparated item count more >>= _) = _
  rw [hothers, within_bind]
  rfl

/-- The first of several items is read alike after any blanks. -/
theorem commaSeparated_congr {other : List Char} (hitem : item text = item other) :
    commaSeparated item (count + 1) text = commaSeparated item (count + 1) other := by
  simp only [commaSeparated, hitem]

end Reckoner.Expr
