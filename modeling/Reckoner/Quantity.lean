import Reckoner.Expr
import Reckoner.UnitTable

/-!
# Quantities

What an expression evaluates to: a magnitude in the root unit of its dimension, the unit to
show it in, and what is known of its uncertainty. `Quantity.combine` is the arithmetic of
quantities; where it has no answer it says why.
-/

namespace Reckoner

/-- The value of an expression. -/
structure Quantity where
  /-- The magnitude in the root unit. -/
  value : Float
  /-- The root unit; a plain number has none. -/
  dimension : Option UnitId := none
  /-- The unit in which it is shown. -/
  display : Option UnitId := none
  approximate : Bool := false
  precision : Option Int := none
  /-- Whether it holds a symbol without a value, so that only its text can be shown. -/
  symbolic : Bool := false
deriving Inhabited

/-- Why an expression has no value. -/
inductive EvaluationFault where
  | unknownName (name : String)
  | noConversion (unit : String)
  | unknownUnit (unit : String)
  | incompatibleUnits
  | compoundUnits
  | inverseUnits
  | unitPowers
  | divisionByZero
  | unknownFunction (name : String)
  | wrongArity (function : String)
  | dimensionedArgument (function : String)
  | plotBounds
  | plotRange
deriving DecidableEq

/-- The text that reports a fault. -/
def EvaluationFault.message : EvaluationFault → String
  | .unknownName name => "Unknown variable or unit: " ++ name ++ "."
  | .noConversion unit => "No usable conversion for " ++ unit ++ "."
  | .unknownUnit unit => "Unknown unit: " ++ unit ++ "."
  | .incompatibleUnits => "Incompatible units."
  | .compoundUnits => "Compound units are not supported."
  | .inverseUnits => "Inverse units are not supported."
  | .unitPowers => "Powers of units are not supported."
  | .divisionByZero => "Division by zero."
  | .unknownFunction name => "Unknown function: " ++ name ++ "."
  | .wrongArity function => "Wrong number of arguments for " ++ function ++ "."
  | .dimensionedArgument function => function ++ " expects a dimensionless argument."
  | .plotBounds => "plot expects numeric bounds."
  | .plotRange => "plot expects min < max and at least one step."

namespace Quantity

/-- A plain number. -/
def number (value : Float) : Quantity :=
  { value }

/-- The value of what has none. -/
def undefined : Quantity :=
  number undefinedValue

/-- A symbol that stands for itself. -/
def symbol : Quantity :=
  { undefined with symbolic := true }

/-- The coarser of two precisions. -/
def coarser : Option Int → Option Int → Option Int
  | some p, some q => some (max p q)
  | some p, none => some p
  | none, q => q

/-- The quantity with the uncertainty and the symbols of another added to its own. -/
def merged (q other : Quantity) : Quantity :=
  { q with
    approximate := q.approximate || other.approximate
    symbolic := q.symbolic || other.symbolic
    precision := coarser q.precision other.precision }

/-- A power. The zeroth power of anything is one, and so is any power of one, also where the other
operand is undefined; every other power of or by what is undefined is undefined. -/
def power (base exponent : Float) : Float :=
  if exponent == 0.0 || base == 1.0 then 1.0
  else if base.isNaN || exponent.isNaN then undefinedValue
  else base.pow exponent

/-- The value of a difference or a sum. -/
def combineSum (merged : Quantity) (l r : Quantity) (value : Float) :
    Except EvaluationFault Quantity :=
  if l.dimension = r.dimension then .ok { merged with value, display := l.display.or r.display }
  else .error .incompatibleUnits

/-- The value of an operator on two quantities. A symbol in either makes the whole symbolic. At most
one factor has a unit, a divisor has none but that of its dividend, and powers have none
at all. -/
def combine (op : Operator) (l r : Quantity) : Except EvaluationFault Quantity :=
  let merged := l.merged r
  if merged.symbolic then .ok merged
  else
    match op with
    | .add => combineSum merged l r (l.value + r.value)
    | .sub => combineSum merged l r (l.value - r.value)
    | .mul | .juxtapose =>
        if l.dimension.isSome && r.dimension.isSome then .error .compoundUnits
        else
          .ok { merged with
            value := l.value * r.value
            dimension := l.dimension.or r.dimension
            display := l.display.or r.display }
    | .div =>
        if r.value == 0.0 then .error .divisionByZero
        else
          match r.dimension with
          | none => .ok { merged with value := l.value / r.value }
          | some _ =>
              if l.dimension = r.dimension then
                .ok { merged with
                  value := l.value / r.value
                  dimension := none
                  display := none }
              else .error .inverseUnits
    | .pow =>
        if l.dimension.isSome || r.dimension.isSome then .error .unitPowers
        else .ok { merged with value := power l.value r.value }

end Quantity

end Reckoner
