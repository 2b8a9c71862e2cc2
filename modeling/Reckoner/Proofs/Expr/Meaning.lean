import Reckoner.Proofs.Expr.EchoForm
import Reckoner.Proofs.Expr.EchoReading
import Reckoner.Proofs.Expr.Structure
import Mathlib.Tactic.Ring

/-!
# The meaning of an expression

The value of an expression in exact arithmetic, under an assignment of numbers to names and any
partial functions for powers and calls. A conversion has the value of what it converts, and a
juxtaposition is a product. The tree as which a canonical text is read has the same value as the
tree that was written: joining the operands of a chain from the left is associativity, and moving a
sign to the first factor is the rule of signs.
-/

namespace Reckoner.Expr

/-- The number of a finite double. -/
def rational? (value : Float) : Option ℚ :=
  match Binary64.ofFloat value with
  | .finite negative mantissa exponent =>
      some ((if negative then -1 else 1) * Binary64.magnitude mantissa exponent)
  | _ => none

/-- What names, powers and functions stand for. -/
structure Interpretation where
  name : String → ℚ
  power : ℚ → ℚ → Option ℚ
  function : String → List ℚ → Option ℚ

namespace Interpretation

variable (i : Interpretation)

/-- Two numbers joined by an operator. Division by zero has no value. -/
def apply (op : Operator) (a b : ℚ) : Option ℚ :=
  match op with
  | .add => some (a + b)
  | .sub => some (a - b)
  | .mul | .juxtapose => some (a * b)
  | .div => if b = 0 then none else some (a / b)
  | .pow => i.power a b

/-- Two values joined by an operator. -/
def combine (op : Operator) (x y : Option ℚ) : Option ℚ :=
  x.bind fun a => y.bind fun b => i.apply op a b

mutual

/-- The value of an expression, if it has one. -/
def value : Expr → Option ℚ
  | .number value => rational? value
  | .name label => some (i.name label)
  | .neg e => (value e).map (- ·)
  | .binary op left right => i.combine op (value left) (value right)
  | .call function arguments => (values arguments).bind (i.function function)
  | .convert e _ => value e

/-- The values of some expressions, if all of them have one. -/
def values : List Expr → Option (List ℚ)
  | [] => some []
  | e :: others => (value e).bind fun a => (values others).map (a :: ·)

end

/-- A value after some signs. -/
def signed (signs : Nat) (x : Option ℚ) : Option ℚ :=
  x.map ((-1) ^ signs * ·)

/-- A value joined to what stands before it. -/
def join (before : Before) (x : Option ℚ) : Option ℚ :=
  match before.left with
  | none => signed before.signs x
  | some (left, op) => i.combine op (i.value left) (signed before.signs x)

/-- Without signs a value stays as it is. -/
@[simp] theorem signed_zero (x : Option ℚ) : signed 0 x = x := by
  cases x <;> simp [signed]

/-- One sign more negates the value. -/
theorem signed_succ (signs : Nat) (x : Option ℚ) :
    signed (signs + 1) x = (signed signs x).map (- ·) := by
  cases x with
  | none => rfl
  | some a =>
    simp only [signed, Option.map_some, Option.some.injEq]
    ring

/-- A conversion does not change the value. -/
@[simp] theorem value_close (unit? : Option String) (e : Expr) :
    i.value (close unit? e) = i.value e := by
  cases unit? <;> simp only [close, value]

/-- Signs before an expression are signs of its value. -/
theorem value_negated (signs : Nat) (e : Expr) :
    i.value (negated signs e) = signed signs (i.value e) := by
  induction signs with
  | zero => rw [signed_zero, negated]
  | succ signs ih => rw [negated, value, ih, signed_succ]

/-- An expression joined to what stands before it has the joined value. -/
theorem value_attach (before : Before) (e : Expr) :
    i.value (before.attach e) = i.join before (i.value e) := by
  obtain ⟨left, signs⟩ := before
  cases left with
  | none => exact i.value_negated signs e
  | some earlier =>
    obtain ⟨left, op⟩ := earlier
    rw [Before.attach, value, value_negated]
    rfl

/-- Where nothing stands before it, a value is its own. -/
@[simp] theorem join_nothing (x : Option ℚ) : i.join .nothing x = x :=
  signed_zero x

/-- A sign before a value negates it. -/
theorem join_signed (before : Before) (x : Option ℚ) :
    i.join before.signed x = i.join before (x.map (- ·)) := by
  have hsigned : signed (before.signs + 1) x = signed before.signs (x.map (- ·)) := by
    cases x with
    | none => rfl
    | some a =>
      simp only [signed, Option.map_some, Option.some.injEq]
      ring
  unfold join Before.signed
  rw [hsigned]

/-- Operators of one chain whose left one is not strict on its right side may be applied in either
order. -/
theorem combine_assoc {op earlier : Operator} (hchain : earlier.chain? = op.chain?)
    (hop : op.chain? ≠ none) (hstrict : strictRight earlier = false) (x y z : Option ℚ) :
    i.combine op (i.combine earlier x y) z = i.combine earlier x (i.combine op y z) := by
  have happly (a b c : ℚ) : (i.apply earlier a b).bind (fun d => i.apply op d c) =
      (i.apply op b c).bind (fun d => i.apply earlier a d) := by
    have hquotient : (if c = 0 then none else some (a * b / c)) =
        (if c = 0 then none else some (b / c)).bind fun d => some (a * d) := by
      split
      · rfl
      · rw [Option.bind_some, mul_div_assoc]
    cases earlier <;> cases op <;>
      simp_all [strictRight, Operator.isCommutative, Operator.chain?, apply, add_assoc,
        add_sub_assoc, mul_assoc]
  cases x with
  | none => rfl
  | some a =>
    cases y with
    | none => rfl
    | some b =>
      cases z with
      | none => cases h : i.apply earlier a b <;> simp [combine, h]
      | some c => exact happly a b c

/-- The sign of a first factor is that of the chain of factors. -/
theorem combine_signed {op : Operator} {signs : Nat} (hop : signs = 0 ∨ op.chain? = some .factors)
    (x y : Option ℚ) : i.combine op (signed signs x) y = signed signs (i.combine op x y) := by
  rcases hop with rfl | hop
  · rw [signed_zero, signed_zero]
  · cases x with
    | none => rfl
    | some a =>
      cases y with
      | none => rfl
      | some b =>
        show i.apply op ((-1) ^ signs * a) b = signed signs (i.apply op a b)
        cases op with
        | mul => exact congrArg some (mul_assoc _ _ _)
        | juxtapose => exact congrArg some (mul_assoc _ _ _)
        | div =>
          simp only [apply]
          split
          · rfl
          · exact congrArg some (mul_div_assoc _ _ _)
        | _ => simp [Operator.chain?] at hop

/-- Joining a chain from the left gives the value that it has after what stands before it. -/
theorem join_combine {before : Before} {op : Operator} (hop : op.chain? ≠ none)
    (hstrict : ∀ left earlier, before.left = some (left, earlier) → earlier.chain? = op.chain? →
      strictRight earlier = false)
    (hsigns : before.signs = 0 ∨ op.chain? = some .factors) (x y : Option ℚ) :
    i.join (before.outside op) (i.combine op (i.join (before.inside op) x) y) =
      i.join before (i.combine op x y) := by
  obtain ⟨left, signs⟩ := before
  cases left with
  | none => 
    show signed 0 (i.combine op (signed signs x) y) = signed signs _
    rw [signed_zero, i.combine_signed hsigns]
  | some earlier =>
    obtain ⟨left, earlier⟩ := earlier
    by_cases hsame : earlier.chain? = op.chain?
    · have hcontinues : Before.continues ⟨some (left, earlier), signs⟩ op = true := by
        simp [Before.continues, hsame]
      have hassoc := i.combine_assoc hsame hop (hstrict left earlier rfl hsame) (i.value left)
        (signed signs x) y
      simp only [Before.outside, Before.inside, hcontinues, if_true, join_nothing]
      simp only [join]
      rw [hassoc, i.combine_signed hsigns]
    · have hcontinues : Before.continues ⟨some (left, earlier), signs⟩ op = false := by
        simp [Before.continues, hsame]
      simp only [Before.outside, Before.inside, hcontinues, Bool.false_eq_true, if_false]
      simp only [join, signed_zero]
      rw [i.combine_signed hsigns]

end Interpretation

/-- What stands before a chain may be joined to its first operand: the operator is not strict if it
is of the same chain, and no sign stands before a sum. -/
structure Before.Suits (before : Before) (chain? : Option Chain) : Prop where
  lax : ∀ left earlier, before.left = some (left, earlier) → chain? ≠ none →
    earlier.chain? = chain? → strictRight earlier = false
  unsigned : before.signs = 0 ∨ chain? ≠ some .summands

/-- Where nothing stands before it, any chain may begin. -/
theorem Before.Suits.nothing (chain? : Option Chain) : Before.nothing.Suits chain? where
  lax left earlier hleft := by simp [Before.nothing] at hleft
  unsigned := .inl rfl

/-- What stands before a chain suits its first operand. -/
theorem Before.Suits.inside {before : Before} {op : Operator} {kind : Chain}
    (hbefore : before.Suits op.chain?) (hop : op.chain? = some kind) {left : Expr}
    (hmeaning : left.keepsMeaning = true) :
    (before.inside op).Suits (Operand.openChain? ⟨parenthesizesLeft op left, left⟩) where
  lax l earlier hleft _ _ := by
    unfold Before.inside at hleft
    split at hleft
    · next hcontinues =>
      rw [Before.continues, hleft, beq_iff_eq] at hcontinues
      exact hbefore.lax l earlier hleft (by simp [hop]) hcontinues
    · simp at hleft
  unsigned := by
    have hsigns : (before.inside op).signs = before.signs := by
      unfold Before.inside
      split <;> rfl
    rw [hsigns]
    rcases hbefore.unsigned with hzero | hnosum
    · exact .inl hzero
    · cases kind with
      | factors => exact .inr (openChain?_factor hop hmeaning _)
      | summands => exact (hnosum hop).elim

/-- The operator of a chain suits its right operand. -/
theorem suits_right {op : Operator} {left right : Expr}
    (hmeaning : keepsMeaning (.binary op left right) = true) (leftPart : Expr) :
    Before.Suits ⟨some (leftPart, op), 0⟩
      (Operand.openChain? ⟨parenthesizesRight op right, right⟩) where
  lax l earlier hleft hopen hsame := by
    obtain ⟨-, rfl⟩ := Prod.mk.inj (Option.some.inj hleft)
    simp only [keepsMeaning, Bool.and_eq_true, Bool.or_eq_true, bne_iff_ne] at hmeaning
    rcases hmeaning.1.2 with (hstrict | hparens) | hother
    · simpa using hstrict
    · simp [Operand.openChain?, unlessEnclosed, hparens] at hopen
    · simp only [Operand.openChain?, unlessEnclosed] at hopen hsame
      split at hsame
      · simp_all
      · exact (hother hsame.symm).elim
  unsigned := .inl rfl

namespace Interpretation

variable (i : Interpretation)

/-- Placed after what stands before it, an expression keeps its value. -/
def KeepsValue (e : Expr) : Prop :=
  ∀ before : Before, before.Suits e.openChain? →
    i.value (e.place before) = i.join before (i.value e)

variable {i}

/-- An operand keeps its value, in parentheses or without. -/
theorem KeepsValue.operand {e : Expr} (he : i.KeepsValue e) {parens : Bool} {before : Before}
    (hbefore : before.Suits (Operand.openChain? ⟨parens, e⟩)) :
    i.value (enclosedPlace parens e.trailingUnit e.place before) = i.join before (i.value e) := by
  cases parens with
  | true =>
    show i.value (before.attach (close e.trailingUnit (e.place .nothing))) = _
    rw [value_attach, value_close, he Before.nothing (.nothing _), join_nothing]
  | false => exact he before hbefore

variable (i)

/-- Arguments that keep their values do so together. -/
theorem values_rereadAll {arguments : List Expr} (heach : ∀ a ∈ arguments, i.KeepsValue a) :
    i.values (rereadAll arguments) = i.values arguments := by
  induction arguments with
  | nil => rfl
  | cons first others ih =>
    have hfirst := heach first List.mem_cons_self Before.nothing (.nothing _)
    have hothers := ih fun a ha => heach a (List.mem_cons_of_mem first ha)
    rw [rereadAll, values, values, value_close, hfirst, join_nothing, hothers]

/-- An expression that keeps the meaning of its nodes keeps its value where it is placed. -/
theorem keepsValue {e : Expr} (he : e.Everywhere fun s => s.keepsMeaning = true) :
    i.KeepsValue e := by
  induction he with
  | number => intro before _; exact i.value_attach before _
  | name => intro before _; exact i.value_attach before _
  | convert _ _ ih => exact ih
  | @neg e here operand ih =>
    intro before hbefore
    have hsigned : before.signed.Suits (Operand.openChain? ⟨e.needsParensAfterSign, e⟩) :=
      ⟨hbefore.lax, .inr (openChain?_negated here)⟩
    show i.value (enclosedPlace _ _ _ before.signed) = _
    rw [ih.operand hsigned, join_signed]
    rfl
  | @binary op left right here leftOperand rightOperand ihleft ihright =>
    intro before hbefore
    cases hop : op.chain? with
    | none =>
      have hplace : (Expr.binary op left right).place before = before.attach (.binary op
          (enclosedPlace (parenthesizesLeft op left) left.trailingUnit left.place .nothing)
          (enclosedPlace (parenthesizesRight op right) right.trailingUnit right.place
            .nothing)) := by
        simp only [place, hop]
      rw [hplace, value_attach, value, ihleft.operand (.nothing _), ihright.operand (.nothing _),
        join_nothing, join_nothing, value]
    | some kind =>
      have hplace : (Expr.binary op left right).place before = (before.outside op).attach
          (enclosedPlace (parenthesizesRight op right) right.trailingUnit right.place
            ⟨some (enclosedPlace (parenthesizesLeft op left) left.trailingUnit left.place
              (before.inside op), op), 0⟩) := by
        simp only [place, hop]
      have hleft := ihleft.operand (Before.Suits.inside hbefore hop leftOperand.here)
      have hright := ihright.operand (suits_right here
        (enclosedPlace (parenthesizesLeft op left) left.trailingUnit left.place (before.inside op)))
      have hsome : op.chain? ≠ none := by simp [hop]
      have hsigns : before.signs = 0 ∨ op.chain? = some .factors := by
        refine hbefore.unsigned.imp id fun hnosum => ?_
        cases kind with
        | factors => exact hop
        | summands => exact (hnosum hop).elim
      rw [hplace, value_attach, hright]
      show i.join _ (i.combine op (i.value (enclosedPlace _ _ _ _)) (signed 0 _)) = _
      rw [hleft, signed_zero, i.join_combine hsome
        (fun l earlier hl hsame => hbefore.lax l earlier hl hsome hsame) hsigns, value]
  | @call function arguments here each ih =>
    intro before _
    show i.value (before.attach (.call function (rereadAll arguments))) = _
    rw [value_attach, value, i.values_rereadAll ih, value]

/-- The tree as which a canonical text is read has the value of the tree that was written. -/
theorem value_reread {e : Expr} (he : e.Everywhere fun s => s.keepsMeaning = true) :
    i.value e.reread = i.value e := by
  rw [reread, value_close, i.keepsValue he Before.nothing (.nothing _), join_nothing]

end Interpretation

end Reckoner.Expr
