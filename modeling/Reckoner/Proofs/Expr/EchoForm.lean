import Reckoner.Expr.Echo
import Reckoner.Proofs.Expr.Grammar

/-!
# The tree that a canonical text stands for

The canonical text of a tree leaves out every pair of parentheses that the value does not need, so
it may be read as another tree: `a + (b - c)` is written like `(a + b) - c`. This file gives that
other tree, the levels that it takes to read it, and the cases in which the text is not to be read
as the tree was meant.
-/

namespace Reckoner

/-- The chain that an operator is part of. Powers are in none. -/
def Operator.chain? : Operator → Option Expr.Chain
  | .add | .sub => some .summands
  | .mul | .div | .juxtapose => some .factors
  | .pow => none

namespace Expr

/-- The left operand of an operator is written in parentheses. -/
def parenthesizesLeft (op : Operator) (left : Expr) : Bool :=
  left.needsParens op.precedence (strictLeft op)

/-- The right operand of an operator is written in parentheses. -/
def parenthesizesRight (op : Operator) (right : Expr) : Bool :=
  right.needsParens op.precedence (strictRight op)

/-- What stands open at the end of an operand, unless parentheses close it. -/
def unlessEnclosed {α : Type} (parens : Bool) (open? : Option α) : Option α :=
  if parens then none else open?

/-- The unit of a conversion that the canonical text of a tree ends with, outside of all
parentheses. -/
def trailingUnit : Expr → Option String
  | .neg e => unlessEnclosed e.needsParensAfterSign e.trailingUnit
  | .binary op _ right => unlessEnclosed (parenthesizesRight op right) right.trailingUnit
  | .convert _ unit => some unit
  | _ => none

/-- The chain that the canonical text of a tree is, outside of all parentheses. -/
def openChain? : Expr → Option Chain
  | .neg e => unlessEnclosed e.needsParensAfterSign e.openChain?
  | .binary op _ _ => op.chain?
  | .convert e _ => e.openChain?
  | _ => none

/-- Whether the canonical text ends with a name that is no unit. -/
def endsInName : Expr → Bool
  | .name _ => true
  | .neg e => !e.needsParensAfterSign && e.endsInName
  | .binary op _ right => !parenthesizesRight op right && right.endsInName
  | _ => false

/-- The operators of a chain that stand outside of the parentheses of an operand. -/
def enclosedLength (parens : Bool) (inner : Nat) : Nat :=
  if parens then 0 else inner

/-- How many operators of a chain stand in the canonical text outside of all parentheses. -/
def chainLength (kind : Chain) : Expr → Nat
  | .neg e => enclosedLength e.needsParensAfterSign (e.chainLength kind)
  | .binary op left right =>
      if op.chain? = some kind then
        enclosedLength (parenthesizesLeft op left) (left.chainLength kind) + 1 +
          enclosedLength (parenthesizesRight op right) (right.chainLength kind)
      else 0
  | .convert e _ => e.chainLength kind
  | _ => 0

/-- Converts to the unit of a trailing conversion. -/
def close : Option String → Expr → Expr
  | none, e => e
  | some unit, e => .convert e unit

/-- Puts signs before an operand. -/
def negated : Nat → Expr → Expr
  | 0, e => e
  | signs + 1, e => .neg (negated signs e)

/-- What stands before an operand: the left part of its chain with the operator, and signs. -/
structure Before where
  left : Option (Expr × Operator)
  signs : Nat

namespace Before

/-- Nothing stands before the operand. -/
def nothing : Before := ⟨none, 0⟩

/-- One sign more stands before the operand. -/
def signed (before : Before) : Before :=
  { before with signs := before.signs + 1 }

/-- Joins an operand to what stands before it. -/
def attach : Before → Expr → Expr
  | ⟨none, signs⟩, e => negated signs e
  | ⟨some (left, op), signs⟩, e => .binary op left (negated signs e)

/-- Whether an operator goes on with the chain before it. -/
def continues (before : Before) (op : Operator) : Bool :=
  match before.left with
  | none => true
  | some (_, earlier) => earlier.chain? == op.chain?

/-- What stands before the first operand of a chain that begins or goes on with an operator. -/
def inside (before : Before) (op : Operator) : Before :=
  if before.continues op then before else ⟨none, before.signs⟩

/-- What stands before a chain that begins or goes on with an operator. -/
def outside (before : Before) (op : Operator) : Before :=
  if before.continues op then nothing else ⟨before.left, 0⟩

end Before

/-- Reads an operand after what stands before it. A conversion inside of parentheses ends there, and
what is in parentheses is not part of the chain before it. -/
def enclosedPlace (parens : Bool) (unit? : Option String) (inner : Before → Expr)
    (before : Before) : Expr :=
  if parens then before.attach (close unit? (inner .nothing)) else inner before

mutual

/-- The tree as which the canonical text is read after what stands before it, up to a trailing
conversion. Operands of a chain are joined from the left, and a sign belongs to the first one. -/
def place : Expr → Before → Expr
  | .number value, before => before.attach (.number value)
  | .name label, before => before.attach (.name label)
  | .neg e, before => enclosedPlace e.needsParensAfterSign e.trailingUnit e.place before.signed
  | .binary op left right, before =>
      let placeLeft := enclosedPlace (parenthesizesLeft op left) left.trailingUnit left.place
      let placeRight := enclosedPlace (parenthesizesRight op right) right.trailingUnit right.place
      match op.chain? with
      | none => before.attach (.binary op (placeLeft .nothing) (placeRight .nothing))
      | some _ =>
          (before.outside op).attach (placeRight ⟨some (placeLeft (before.inside op), op), 0⟩)
  | .call function arguments, before => before.attach (.call function (rereadAll arguments))
  | .convert e _, before => e.place before

/-- The trees as which the arguments of a call are read. -/
def rereadAll : List Expr → List Expr
  | [] => []
  | e :: others => close e.trailingUnit (e.place .nothing) :: rereadAll others

end

/-- The tree as which the canonical text is read. -/
def reread (e : Expr) : Expr :=
  close e.trailingUnit (e.place .nothing)

/-- The levels of an operand after some signs, where parentheses take one more. -/
def enclosedLevels (parens : Bool) (inner : Nat → Nat) (signs : Nat) : Nat :=
  if parens then signs + (inner 0 + 1) else inner signs

mutual

/-- The levels that reading the canonical text takes after some signs. -/
def levels : Expr → Nat → Nat
  | .number _, signs => signs + 1
  | .name _, signs => signs + 1
  | .neg e, signs => enclosedLevels e.needsParensAfterSign e.levels (signs + 1)
  | .binary op left right, signs =>
      let leftLevels := enclosedLevels (parenthesizesLeft op left) left.levels
      let rightLevels := enclosedLevels (parenthesizesRight op right) right.levels 0
      match op.chain? with
      | none => signs + max (leftLevels 0) (rightLevels + 1)
      | some kind =>
          max (leftLevels signs)
            (enclosedLength (parenthesizesLeft op left) (left.chainLength kind) + 1 + rightLevels)
  | .call _ arguments, signs => signs + (maxLevels arguments + 1)
  | .convert e _, signs => e.levels signs

/-- The most levels that one of the arguments of a call takes. -/
def maxLevels : List Expr → Nat
  | [] => 0
  | e :: others => max (e.levels 0) (maxLevels others)

end

/-- The text of a right operand reads as a factor directly after the left one, without an operator
between them. -/
def juxtaposes (left right : Expr) : Bool :=
  let text := enclosed (parenthesizesRight .juxtapose right) (right.echoChars false)
  Parser.startsOperand text &&
    !(!parenthesizesLeft .juxtapose left && left.endsInName && text.head? == some '(')

/-- The canonical text of a node keeps its meaning. A sign stays before the whole of its operand, a
conversion before the end of an operand is closed by parentheses, the right operand of an operator
that is strict there is not torn apart, and factors without an operator stay such factors. -/
def keepsMeaning : Expr → Bool
  | .neg e => e.needsParensAfterSign || e.openChain? != some .summands
  | .binary op left right =>
      (parenthesizesLeft op left || left.trailingUnit.isNone) &&
        (!strictRight op || parenthesizesRight op right || right.openChain? != op.chain?) &&
        (op != .juxtapose || juxtaposes left right)
  | .convert e _ => e.trailingUnit.isNone
  | _ => true

end Expr

end Reckoner
