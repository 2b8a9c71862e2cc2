import Reckoner.Proofs.Expr.CursorSteps
import Reckoner.Proofs.Expr.Recognition

/-!
# The rules followed by a cursor

The rules that a cursor reads by call one another without a bound, while the parsers are built
level by level. Both charge a level at the same places, so the levels that a reading has left
bound how far the calls go, and the rules are compared with the parsers by induction on them.
Between two charges the calls follow the grammar down to the next operand. Only the arguments of a
call go on at one level, and there each of them makes the text that is left shorter.
-/

namespace Reckoner.Expr

open Reckoner.Expr.Parser Reckoner.Token

namespace Scan

variable {text : String} {depth n : Nat}

/-! ## Operators -/

/-- The operator of a chain is taken where one stands. -/
theorem arrives_operator (hdepth : depth ≤ maxDepth + 1) (kind : Chain) (rest : List Char) :
    Arrives text (fun _ => operator text kind) depth rest depth
      (.ok ((kind.operator? rest).map Prod.fst, (kind.operator? rest).elim rest Prod.snd)) := by
  cases kind with
  | summands =>
    simp only [Chain.operator?]
    unfold sumOperator?
    split
    · exact .andThen (arrives_consume hdepth _ _) (.pure _ _ _)
    · exact .andThen (arrives_consume_of_ne (by simp) _)
        (.andThen (arrives_consume hdepth _ _) (.pure _ _ _))
    · next hplus hminus =>
      exact .andThen (arrives_consume_of_ne hplus _)
        (.andThen (arrives_consume_of_ne hminus _) (.pure _ _ _))
  | factors =>
    simp only [Chain.operator?]
    unfold factorOperator?
    split
    · exact .andThen (arrives_consume hdepth _ _) (.pure _ _ _)
    · exact .andThen (arrives_consume_of_ne (by simp) _)
        (.andThen (arrives_consume hdepth _ _) (.pure _ _ _))
    · next htimes hover =>
      have hoperand : Arrives text (fun _ => Scan.startsOperand text) depth rest depth _ :=
        arrives_startsOperand depth rest
      refine .andThen (arrives_consume_of_ne htimes _) (.andThen (arrives_consume_of_ne hover _)
        (.andThen hoperand ?_))
      cases hstarts : Parser.startsOperand rest <;> exact .pure _ _ _

/-- Where an operator stands, it is taken. -/
theorem arrives_operator_of_some (hdepth : depth ≤ maxDepth + 1) {kind : Chain}
    {rest after : List Char} {op : Operator} (hop : kind.operator? rest = some (op, after)) :
    Arrives text (fun _ => operator text kind) depth rest depth (.ok (some op, after)) := by
  have hoperator : Arrives text (fun _ => operator text kind) depth rest depth _ :=
    arrives_operator hdepth kind rest
  rw [hop] at hoperator
  exact hoperator

/-- Where none stands, the cursor stays. -/
theorem arrives_operator_of_none (hdepth : depth ≤ maxDepth + 1) {kind : Chain}
    {rest : List Char} (hend : kind.operator? rest = none) :
    Arrives text (fun _ => operator text kind) depth rest depth (.ok (none, rest)) := by
  have hoperator : Arrives text (fun _ => operator text kind) depth rest depth _ :=
    arrives_operator hdepth kind rest
  rw [hend] at hoperator
  exact hoperator

/-! ## Rules -/

/-- With `n` levels left, the rules with charges of their own follow the parsers of that
allowance. -/
structure Follows (text : String) (n : Nat) : Prop where
  signed {depth : Nat} (hdepth : depth + n = maxDepth) (rest : List Char) :
    Arrives text (signed text) depth rest depth ((Level.withAllowance n).signed rest)
  more {depth charged : Nat} (hdepth : depth + charged + n = maxDepth) (kind : Chain) (left : Expr)
    (rest : List Char) :
    Arrives text (more text kind left charged) (depth + charged) rest depth
      (kind.more (Level.withAllowance n) left rest)

namespace Follows

/-- A chain is followed if its operands are. -/
theorem chain_of_operand (h : Follows text n) (hdepth : depth + n = maxDepth) {kind : Chain}
    (hoperand : ∀ rest, Arrives text (operand text kind) depth rest depth
      (kind.operandParser (Level.withAllowance n) rest)) (rest : List Char) :
    Arrives text (chain text kind) depth rest depth (kind.whole (Level.withAllowance n) rest) := by
  refine .call ?_
  simp only [Scan.chain]
  rw [Chain.whole_eq]
  have hcharged : depth + 0 + n = maxDepth := hdepth
  exact (hoperand rest).bind fun left rest' _ => h.more hcharged kind left rest'

/-- Operands of chains are followed. -/
theorem operand (h : Follows text n) (hdepth : depth + n = maxDepth) (kind : Chain)
    (rest : List Char) :
    Arrives text (operand text kind) depth rest depth
      (kind.operandParser (Level.withAllowance n) rest) := by
  have hfactors : ∀ rest, Arrives text (Scan.operand text .factors) depth rest depth
      (Chain.factors.operandParser (Level.withAllowance n) rest) := by
    intro rest
    refine .call ?_
    simp only [Scan.operand]
    exact h.signed hdepth rest
  cases kind with
  | factors => exact hfactors rest
  | summands =>
    refine .call ?_
    simp only [Scan.operand]
    exact h.chain_of_operand hdepth hfactors rest

/-- Chains are followed. -/
theorem chain (h : Follows text n) (hdepth : depth + n = maxDepth) (kind : Chain)
    (rest : List Char) :
    Arrives text (chain text kind) depth rest depth (kind.whole (Level.withAllowance n) rest) :=
  h.chain_of_operand hdepth (h.operand hdepth kind) rest

/-- A sum with its conversion is followed. -/
theorem conversion (h : Follows text n) (hdepth : depth + n = maxDepth) (rest : List Char) :
    Arrives text (conversion text) depth rest depth
      ((Level.withAllowance n).conversion rest) := by
  have hsafe : depth ≤ maxDepth + 1 := by omega
  refine .call ?_
  simp only [Scan.conversion]
  refine (h.chain hdepth .summands rest).bind fun value rest' _ => ?_
  refine .andThen (arrives_skipBlanks hsafe rest') ?_
  dsimp only
  cases hto : afterTo? (Text.skipBlanks rest') with
  | none => exact .andThen (arrives_consumeKeyword_of_none hto depth) (.pure _ _ _)
  | some after =>
    refine .andThen (arrives_consumeKeyword hsafe hto) ?_
    refine .andThen (arrives_skipBlanks hsafe after) ?_
    exact (arrives_name hsafe _).bind fun unit rest'' _ => .pure _ _ _

/-- The reading of arguments between commas is followed. -/
theorem items (h : Follows text n) (hdepth : depth + n = maxDepth) {count : Nat}
    {rest : List Char} (hcount : rest.length < count) :
    Arrives text (items text) depth rest depth
      (commaSeparated (Level.withAllowance n).conversion count rest) := by
  have hsafe : depth ≤ maxDepth + 1 := by omega
  induction count generalizing rest with
  | zero => cases hcount
  | succ count ih =>
    refine .call ?_
    simp only [Scan.items]
    refine (h.conversion hdepth rest).bind fun first rest' hfirst => ?_
    have hlength : rest'.length ≤ rest.length :=
      ((sound_withAllowance n).conversion hfirst).suffix.length_le
    refine .andThen (arrives_skipBlanks hsafe rest') ?_
    dsimp only
    have hskip := Text.length_skipBlanks_le rest'
    split
    · next others hcomma =>
      rw [hcomma] at hskip ⊢
      rw [List.length_cons] at hskip
      refine .andThen (arrives_consume hsafe ',' others) ?_
      exact (ih (by omega)).bind fun more rest'' _ => .pure _ _ _
    · next hcomma => exact .andThen (arrives_consume_of_ne hcomma depth) (.pure _ _ _)

/-- The arguments of a call are followed. -/
theorem arguments (h : Follows text n) (hdepth : depth + n = maxDepth) (rest : List Char) :
    Arrives text (arguments text) depth rest depth
      ((Level.withAllowance n).arguments rest) := by
  have hsafe : depth ≤ maxDepth + 1 := by omega
  refine .call ?_
  simp only [Scan.arguments]
  refine .andThen (arrives_skipBlanks hsafe rest) (.andThen (arrives_peek _ _) ?_)
  unfold Level.arguments
  by_cases hclose : ∃ others, Text.skipBlanks rest = ')' :: others
  · obtain ⟨others, hclose⟩ := hclose
    simp only [hclose, List.head?_cons]
    exact .pure _ _ _
  · have hhead : (Text.skipBlanks rest).head? ≠ some ')' := fun h =>
      hclose (List.head?_eq_some_iff.mp h)
    simp only [if_neg hhead]
    split
    · next others hothers => exact absurd ⟨others, hothers⟩ hclose
    · exact h.items hdepth (Nat.lt_succ_self _)

/-- A primary is followed. -/
theorem primary (h : Follows text n) (hdepth : depth + n = maxDepth) (rest : List Char) :
    Arrives text (primary text) depth rest depth ((Level.withAllowance n).primary rest) := by
  have hsafe : depth ≤ maxDepth + 1 := by omega
  refine .call ?_
  simp only [Scan.primary]
  refine .andThen (arrives_skipBlanks hsafe rest) (.andThen (arrives_peek _ _) ?_)
  unfold Level.primary
  cases hrest : Text.skipBlanks rest with
  | nil => exact .refuse _ _ _ _
  | cons c others =>
    simp only [List.head?_cons]
    split
    · next hopen =>
      subst hopen
      refine .andThen (arrives_advance_char hsafe '(' others) ?_
      refine (h.conversion hdepth others).bind fun inner rest' _ => ?_
      exact .andThen (arrives_skipBlanks hsafe rest') (arrives_expect hsafe ')' inner _)
    · split
      · exact arrives_number hsafe _
      · split
        · refine (arrives_name hsafe _).bind fun label rest' _ => ?_
          refine .andThen (arrives_skipBlanks hsafe rest') ?_
          dsimp only
          split
          · next inner hopen =>
            rw [hopen]
            refine .andThen (arrives_consume hsafe '(' inner) ?_
            refine (h.arguments hdepth inner).bind fun arguments rest'' _ => ?_
            exact arrives_expect hsafe ')' (Expr.call label arguments) rest''
          · next hopen => exact .andThen (arrives_consume_of_ne hopen depth) (.pure _ _ _)
        · exact .refuse _ _ _ _

/-- A primary with its power is followed. -/
theorem power (h : Follows text n) (hdepth : depth + n = maxDepth) (rest : List Char) :
    Arrives text (power text) depth rest depth ((Level.withAllowance n).power rest) := by
  have hsafe : depth ≤ maxDepth + 1 := by omega
  refine .call ?_
  simp only [Scan.power]
  refine (h.primary hdepth rest).bind fun base rest' _ => ?_
  refine .andThen (arrives_skipBlanks hsafe rest') ?_
  dsimp only
  split
  · next after hcaret =>
    rw [hcaret]
    refine .andThen (arrives_consume hsafe '^' after) ?_
    exact (h.signed hdepth after).bind fun exponent rest'' _ => .pure _ _ _
  · next hcaret => exact .andThen (arrives_consume_of_ne hcaret depth) (.pure _ _ _)

/-- An operand behind its blanks is followed. -/
theorem signs (h : Follows text n) (hdepth : depth + n = maxDepth) (rest : List Char) :
    Arrives text (signs text) depth (Text.skipBlanks rest) depth
      ((Level.withAllowance n).operand rest) := by
  have hsafe : depth ≤ maxDepth + 1 := by omega
  refine .call ?_
  simp only [Scan.signs]
  unfold Level.operand
  split
  · next inner hminus =>
    rw [hminus]
    refine .andThen (arrives_consume hsafe '-' inner) ?_
    exact (h.signed hdepth inner).bind fun e rest' _ => .pure _ _ _
  · next inner hplus =>
    rw [hplus]
    refine .andThen (arrives_consume_of_ne (by simp) depth) ?_
    exact .andThen (arrives_consume hsafe '+' inner) (h.signed hdepth inner)
  · next hminus hplus =>
    refine .andThen (arrives_consume_of_ne hminus depth) ?_
    exact .andThen (arrives_consume_of_ne hplus depth) (h.power hdepth _)

end Follows

/-- A chain that ends is followed, and gives back what it was charged. -/
theorem arrives_more_of_end {charged : Nat} (hdepth : depth + charged + n = maxDepth)
    {kind : Chain} (left : Expr) {rest : List Char}
    (hend : kind.operator? (Text.skipBlanks rest) = none) :
    Arrives text (more text kind left charged) (depth + charged) rest depth
      (kind.more (Level.withAllowance n) left rest) := by
  have hsafe : depth + charged ≤ maxDepth + 1 := by omega
  rw [kind.more_of_end n left hend]
  refine .call ?_
  simp only [Scan.more]
  refine .andThen (arrives_skipBlanks hsafe rest) ?_
  refine .andThen (arrives_operator_of_none hsafe hend) ?_
  exact .andThen (arrives_ascend (by omega) _) (.pure _ _ _)

/-- Where no level is left, the rules are followed. -/
theorem follows_zero (text : String) : Follows text 0 where
  signed {depth} hdepth rest := by
    refine .call ?_
    simp only [Scan.signed]
    refine .andThen (arrives_skipBlanks (by omega) rest) ?_
    exact .refused (arrives_descend_of_eq hdepth depth _)
  more {depth charged} hdepth kind left rest := by
    cases hop : kind.operator? (Text.skipBlanks rest) with
    | none => exact arrives_more_of_end hdepth left hop
    | some pair =>
      obtain ⟨op, after⟩ := pair
      have hsafe : depth + charged ≤ maxDepth + 1 := by omega
      rw [kind.more_zero left hop]
      refine .call ?_
      simp only [Scan.more]
      refine .andThen (arrives_skipBlanks hsafe rest) ?_
      refine .andThen (arrives_operator_of_some hsafe hop) ?_
      exact .refused (arrives_descend_of_eq hdepth depth after)

/-- With one level more, the rules are followed as well. -/
theorem follows_succ (h : Follows text n) : Follows text (n + 1) where
  signed {depth} hdepth rest := by
    refine .call ?_
    simp only [Scan.signed]
    refine .andThen (arrives_skipBlanks (by omega) rest) ?_
    refine .andThen (arrives_descend (by omega) _) ?_
    refine (h.signs (by omega) rest).ending fun e rest' => ?_
    exact .andThen (arrives_ascend (by omega) rest') (.pure _ _ _)
  more {depth charged} hdepth kind left rest := by
    cases hop : kind.operator? (Text.skipBlanks rest) with
    | none => exact arrives_more_of_end hdepth left hop
    | some pair =>
      obtain ⟨op, after⟩ := pair
      have hsafe : depth + charged ≤ maxDepth + 1 := by omega
      rw [kind.more_succ n left hop]
      refine .call ?_
      simp only [Scan.more]
      refine .andThen (arrives_skipBlanks hsafe rest) ?_
      refine .andThen (arrives_operator_of_some hsafe hop) ?_
      refine .andThen (arrives_descend (by omega) after) ?_
      refine (h.operand (by omega) kind after).bind fun right rest' _ => ?_
      exact h.more (by omega) kind (.binary op left right) rest'

/-- Whatever levels are left, the rules are followed. -/
theorem follows (text : String) (n : Nat) : Follows text n := by
  induction n with
  | zero => exact follows_zero text
  | succ n ih => exact follows_succ ih

end Scan

end Reckoner.Expr
