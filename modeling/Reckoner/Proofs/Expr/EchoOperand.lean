import Reckoner.Proofs.Decimal.PlainText
import Reckoner.Proofs.Expr.EchoForm
import Reckoner.Proofs.Expr.Reading
import Reckoner.Proofs.Expr.Structure

/-!
# Operands in a canonical text

What it means that an operand is read: after the signs and the left part of a chain that stand
before it, and before a text that does not go on with it. How operators are read, and how an operand
that is read as one part is read as a part of a chain.
-/

namespace Reckoner.Expr

open Reckoner.Expr.Parser Reckoner.Text Reckoner.Token

/-- An expression as an operand, in parentheses or without. -/
structure Operand where
  parens : Bool
  e : Expr

namespace Operand

variable (o : Operand)

/-- The canonical text of the operand. -/
def text : List Char :=
  enclosed o.parens (o.e.echoChars false)

/-- The unit of a conversion that the operand ends with. -/
def trailingUnit : Option String :=
  unlessEnclosed o.parens o.e.trailingUnit

/-- The chain that the operand is. -/
def openChain? : Option Chain :=
  unlessEnclosed o.parens o.e.openChain?

/-- How many operators of a chain the operand has. -/
def chainLength (kind : Chain) : Nat :=
  enclosedLength o.parens (o.e.chainLength kind)

/-- The levels that the operand takes after some signs. -/
def levels (signs : Nat) : Nat :=
  enclosedLevels o.parens o.e.levels signs

/-- The tree as which the operand is read after what stands before it. -/
def place (before : Before) : Expr :=
  enclosedPlace o.parens o.e.trailingUnit o.e.place before

/-- Whether the operand ends with a name that is no unit. -/
def endsInName : Bool :=
  !o.parens && o.e.endsInName

/-- What is left of the operand, and what follows it, when its sum is read. -/
def tail (rest : List Char) : List Char :=
  match o.trailingUnit with
  | none => rest
  | some unit => " to ".toList ++ (unit.toList ++ rest)

end Operand

/-- What may follow an operand: nothing that would go on with its last token or with its power, and
after a summand also no factor. -/
structure Follows (kind : Chain) (named : Bool) (rest : List Char) : Prop where
  parted : Parted rest
  uncalled : named = true → ∀ after, skipBlanks rest ≠ '(' :: after
  unraised : ∀ after, skipBlanks rest ≠ '^' :: after
  unjoined : kind = .summands → factorOperator? (skipBlanks rest) = none

/-- The signs of what stands before an operand. -/
def Before.signText (before : Before) (text : List Char) : List Char :=
  List.replicate before.signs '-' ++ text

/-- The levels that the operator before an operand takes. -/
def Before.shift (before : Before) : Nat :=
  if before.left.isSome then 1 else 0

/-- The operator before a text is one of the chain, and no sign of multiplication is missed. -/
def Before.Admits (before : Before) (kind : Chain) (text : List Char) : Prop :=
  ∀ left op, before.left = some (left, op) → op.chain? = some kind ∧
    (op = .juxtapose → startsOperand (before.signText text) = true)

/-- Reads a chain from an operand on, after what stands before it. -/
def Chain.start (kind : Chain) (n : Nat) (before : Before) (text : List Char) :
    Except ParseError (Expr × List Char) :=
  match before.left with
  | none => kind.whole (Level.withAllowance n) (before.signText text)
  | some (left, op) =>
      kind.more (Level.withAllowance n) left (op.symbol false ++ before.signText text)

namespace Operand

/-- The operand is read as one, with the signs before it. -/
def ReadsSigned (o : Operand) : Prop :=
  ∀ (n signs : Nat) (rest : List Char), Follows .factors o.endsInName (o.tail rest) →
    (Level.withAllowance n).signed (Before.signText ⟨none, signs⟩ (o.text ++ rest)) =
      within (o.levels signs) n (.ok (o.place ⟨none, signs⟩, skipBlanks (o.tail rest)))

/-- The operand is read in a chain, and the rest of the chain after it. -/
def ReadsChain (o : Operand) (kind : Chain) : Prop :=
  ∀ (n : Nat) (before : Before) (rest : List Char), before.Admits kind (o.text ++ rest) →
    (o.openChain? = some .summands → before.signs = 0) → Parted rest →
    Follows kind o.endsInName (o.tail rest) →
    kind.start n before (o.text ++ rest) =
      within (before.shift + o.levels before.signs) n
        (kind.more (Level.withAllowance (n - before.shift - o.chainLength kind)) (o.place before)
          (o.tail rest))

/-- The operand is read wherever it may stand: one that is no chain under signs, one that is no sum
among factors, and any among summands. -/
structure Reads (o : Operand) : Prop where
  signed : o.openChain? = none → o.ReadsSigned
  factors : o.openChain? ≠ some .summands → o.ReadsChain .factors
  summands : o.ReadsChain .summands

end Operand

/-! ## Operators -/

/-- The operator of a chain is found in its canonical text, and its operand after it. -/
theorem operator?_symbol {kind : Chain} {op : Operator} (hop : op.chain? = some kind)
    {text : List Char} (hjuxtapose : op = .juxtapose → startsOperand text = true) :
    ∃ operandText, kind.operator? (skipBlanks (op.symbol false ++ text)) = some (op, operandText) ∧
      skipBlanks operandText = skipBlanks text := by
  cases op with
  | add =>
    cases hop
    refine ⟨' ' :: text, ?_, skipBlanks_space text⟩
    show sumOperator? (skipBlanks (' ' :: '+' :: ' ' :: text)) = _
    rw [skipBlanks_space, skipBlanks_cons _ (by decide)]
    rfl
  | sub =>
    cases hop
    refine ⟨' ' :: text, ?_, skipBlanks_space text⟩
    show sumOperator? (skipBlanks (' ' :: '-' :: ' ' :: text)) = _
    rw [skipBlanks_space, skipBlanks_cons _ (by decide)]
    rfl
  | mul =>
    cases hop
    refine ⟨' ' :: text, ?_, skipBlanks_space text⟩
    show factorOperator? (skipBlanks (' ' :: '*' :: ' ' :: text)) = _
    rw [skipBlanks_space, skipBlanks_cons _ (by decide)]
    rfl
  | div =>
    cases hop
    refine ⟨text, ?_, rfl⟩
    show factorOperator? (skipBlanks ('/' :: text)) = _
    rw [skipBlanks_cons _ (by decide)]
    rfl
  | pow => simp [Operator.chain?] at hop
  | juxtapose =>
    cases hop
    have htext := hjuxtapose rfl
    refine ⟨text, ?_, rfl⟩
    show factorOperator? (skipBlanks (' ' :: text)) = _
    rw [skipBlanks_space, skipBlanks_of_startsOperand htext, factorOperator?_of_startsOperand htext]

namespace Operand

variable {o : Operand} {kind : Chain}

/-- An operand that is no chain of the given kind is joined to the operator before it, and the chain
goes on after it. -/
theorem readsChain_of_operand (hlength : o.chainLength kind = 0)
    (hplace : ∀ left op signs, op.chain? = some kind →
      o.place ⟨some (left, op), signs⟩ = .binary op left (o.place ⟨none, signs⟩))
    (hoperand : ∀ (n signs : Nat) (rest : List Char),
      (o.openChain? = some .summands → signs = 0) → Parted rest →
      Follows kind o.endsInName (o.tail rest) →
      kind.operandParser (Level.withAllowance n) (Before.signText ⟨none, signs⟩ (o.text ++ rest)) =
        within (o.levels signs) n (.ok (o.place ⟨none, signs⟩, skipBlanks (o.tail rest)))) :
    o.ReadsChain kind := by
  rintro n ⟨left, signs⟩ rest hadmits hsigns hparted hfollows
  rw [hlength, Nat.sub_zero]
  cases left with
  | none =>
    show kind.whole _ _ = within (0 + _) n _
    rw [Chain.whole_eq, hoperand n signs rest hsigns hparted hfollows, within_bind, Nat.zero_add]
    exact congrArg (within _ n) (kind.more_congr n _ (skipBlanks_skipBlanks _))
  | some before =>
    obtain ⟨left, op⟩ := before
    obtain ⟨hop, hjuxtapose⟩ := hadmits left op rfl
    obtain ⟨operandText, hfound, hsame⟩ := operator?_symbol hop hjuxtapose
    show kind.more _ left (op.symbol false ++ _) = within (1 + _) n _
    cases n with
    | zero => rw [kind.more_zero left hfound, within_of_lt (by omega)]
    | succ n =>
      have hread := hoperand n signs rest hsigns hparted hfollows
      rw [kind.more_succ n left hfound, kind.operandParser_congr n hsame]
      rw [hplace left op signs hop, Nat.add_comm 1, within_succ]
      show kind.operandParser _ (Before.signText ⟨none, signs⟩ _) >>= _ = _
      rw [hread, within_bind]
      exact congrArg (within _ n) (kind.more_congr n _ (skipBlanks_skipBlanks _))

end Operand

/-- What is no chain of a kind has no operators of it. -/
theorem chainLength_eq_zero {kind : Chain} (e : Expr) (hchain : e.openChain? ≠ some kind) :
    e.chainLength kind = 0 := by
  induction e using Expr.induction with
  | number => rfl
  | name => rfl
  | call => rfl
  | neg e ih =>
    simp only [openChain?, unlessEnclosed, chainLength, enclosedLength] at hchain ⊢
    split
    · rfl
    · next hparens =>
      rw [if_neg hparens] at hchain
      exact ih hchain
  | binary op left right => exact if_neg hchain
  | convert e unit ih => exact ih hchain

/-- What is no chain of the kind of the operator before it is joined to it as a whole. -/
theorem place_some {kind : Chain} (e : Expr) (hchain : e.openChain? ≠ some kind) (left : Expr)
    {op : Operator} (hop : op.chain? = some kind) (signs : Nat) :
    e.place ⟨some (left, op), signs⟩ = .binary op left (e.place ⟨none, signs⟩) := by
  induction e using Expr.induction generalizing signs with
  | number => rfl
  | name => rfl
  | call => rfl
  | neg e ih =>
    simp only [openChain?, unlessEnclosed, place, enclosedPlace] at hchain ⊢
    split
    · rfl
    · next hparens =>
      rw [if_neg hparens] at hchain
      exact ih hchain _
  | binary op' l r =>
    simp only [place]
    split
    · rfl
    · next kind' hkind =>
      have hother : (op.chain? == op'.chain?) = false := by
        rw [hop]
        exact beq_false_of_ne hchain.symm
      have hapart : Before.continues ⟨some (left, op), signs⟩ op' = false := hother
      have htogether : Before.continues ⟨none, signs⟩ op' = true := rfl
      simp only [Before.inside, Before.outside, hapart, htogether, if_true, Bool.false_eq_true,
        if_false, Before.attach, Before.nothing, negated]
  | convert e unit ih => exact ih hchain signs

/-- Reading takes a level at least. -/
theorem levels_pos (e : Expr) (signs : Nat) : 0 < e.levels signs := by
  induction e using Expr.induction generalizing signs with
  | number => exact signs.succ_pos
  | name => exact signs.succ_pos
  | call => simp only [levels]; omega
  | neg e ih =>
    simp only [levels, enclosedLevels]
    split
    · omega
    · exact ih _
  | binary op left right =>
    simp only [levels]
    split <;> omega
  | convert e unit ih => exact ih signs

namespace Operand

variable {o : Operand} {kind : Chain}

/-- What is no chain of a kind has no operators of it. -/
theorem chainLength_eq_zero (hchain : o.openChain? ≠ some kind) : o.chainLength kind = 0 := by
  obtain ⟨parens, e⟩ := o
  cases parens with
  | true => rfl
  | false => exact Expr.chainLength_eq_zero e hchain

/-- What is no chain of the kind of the operator before it is joined to it as a whole. -/
theorem place_some (hchain : o.openChain? ≠ some kind) (left : Expr) {op : Operator}
    (hop : op.chain? = some kind) (signs : Nat) :
    o.place ⟨some (left, op), signs⟩ = .binary op left (o.place ⟨none, signs⟩) := by
  obtain ⟨parens, e⟩ := o
  cases parens with
  | true => rfl
  | false => exact Expr.place_some e hchain left hop signs

/-- An operand takes a level at least. -/
theorem levels_pos (o : Operand) (signs : Nat) : 0 < o.levels signs := by
  obtain ⟨parens, e⟩ := o
  cases parens with
  | true => simp only [levels, enclosedLevels, if_true]; omega
  | false => exact Expr.levels_pos e signs

/-- What is read as a single operand is read among factors. -/
theorem ReadsSigned.factors (hread : o.ReadsSigned) (hchain : o.openChain? = none) :
    o.ReadsChain .factors :=
  readsChain_of_operand (chainLength_eq_zero (by simp [hchain]))
    (fun left _ signs hop => place_some (by simp [hchain]) left hop signs)
    fun n signs rest _ _ hfollows => hread n signs rest hfollows

/-- What is read as a chain of factors is read among summands. -/
theorem ReadsChain.summands (hread : o.ReadsChain .factors)
    (hchain : o.openChain? ≠ some .summands) : o.ReadsChain .summands := by
  refine readsChain_of_operand (chainLength_eq_zero hchain)
    (fun left _ signs hop => place_some hchain left hop signs) ?_
  intro n signs rest hsigns hparted hfollows
  have hterm := hread n ⟨none, signs⟩ rest (by simp [Before.Admits]) hsigns hparted
    ⟨hfollows.parted, hfollows.uncalled, hfollows.unraised, by simp⟩
  have hstop := Chain.more_of_end .factors (n - Before.shift ⟨none, signs⟩ - o.chainLength .factors)
    (o.place ⟨none, signs⟩) (hfollows.unjoined rfl)
  rw [hstop] at hterm
  show Level.term _ _ = _
  refine Eq.trans hterm ?_
  show within (0 + _) n _ = _
  rw [Nat.zero_add]

/-- An operand that is no chain is read everywhere if it is read as a single one. -/
theorem Reads.of_signed (hchain : o.openChain? = none) (hread : o.ReadsSigned) : o.Reads where
  signed _ := hread
  factors _ := hread.factors hchain
  summands := (hread.factors hchain).summands (by simp [hchain])

/-- A chain of factors is read everywhere if it is read among factors. -/
theorem Reads.of_factors (hchain : o.openChain? = some .factors) (hread : o.ReadsChain .factors) :
    o.Reads where
  signed hnone := by simp [hchain] at hnone
  factors _ := hread
  summands := hread.summands (by simp [hchain])

/-- A chain of summands is read everywhere if it is read among summands. -/
theorem Reads.of_summands (hchain : o.openChain? = some .summands)
    (hread : o.ReadsChain .summands) : o.Reads where
  signed hnone := by simp [hchain] at hnone
  factors hsum := (hsum hchain).elim
  summands := hread

end Operand

end Reckoner.Expr
