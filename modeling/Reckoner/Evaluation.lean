import Reckoner.Diagnostic
import Reckoner.Expr.Echo
import Reckoner.FunctionTable
import Reckoner.Plot
import Reckoner.Quantity
import Reckoner.VariableTable

/-!
# Evaluating an expression

An evaluation reads names from tables that it cannot change, and changes only its own `Run`:
the messages it reports, the plot it leaves, the value bound to `x`, whether it met a
currency, and how often it looked at the clock. Time is data: a `Clock` lists the readings, and an
evaluation that reads its deadline or later halts. The run as it was at that point is part of
the outcome.
-/

namespace Reckoner

/-- Successive readings of a clock, in nanoseconds from some fixed moment. -/
def Clock := Nat → Int

namespace Clock

/-- The reading of a given number. -/
def reading (clock : Clock) (n : Nat) : Int :=
  clock n

/-- A clock that goes on by a fixed time with every reading. With it a time budget bounds the work
done, and a run can be repeated. -/
def metered (start step : Int) : Clock :=
  fun n => start + step * n

end Clock

/-- Why an evaluation stopped without a value. -/
inductive Halt where
  | timeout
deriving DecidableEq

/-- What an evaluation reads. -/
structure Scope where
  units : UnitTable
  constants : VariableTable
  functions : FunctionTable
  settings : Settings
  clock : Clock
  /-- The reading from which on the evaluation halts. -/
  deadline : Int

/-- What an evaluation changes. -/
structure Run where
  /-- The messages reported so far, the newest first. -/
  messages : List Message := []
  plot : PlotSlot := .empty
  /-- The value bound to `x` while a plot is sampled. -/
  binding : Option Float := none
  /-- Whether a currency other than a root was met. -/
  usedCurrency : Bool := false
  /-- How many readings of the clock were taken. -/
  ticks : Nat := 0
deriving Inhabited

/-- A step of an evaluation: from a run to a value or a halt, and the run after it. -/
abbrev Evaluation (α : Type) := ExceptT Halt (StateM Run) α

namespace Evaluation

/-- Adds a message to the run. -/
def report (fault : EvaluationFault) : Evaluation Unit :=
  modify fun run => { run with messages := ⟨.error, fault.message⟩ :: run.messages }

/-- Reports a fault; the value is then undefined. -/
def fail (fault : EvaluationFault) : Evaluation Quantity := do
  report fault
  return .undefined

/-- Takes a value, or reports why there is none. -/
def ofResult : Except EvaluationFault Quantity → Evaluation Quantity
  | .ok q => return q
  | .error fault => fail fault

/-- Runs an evaluation with `x` bound, and puts the old binding back however it ends. -/
def withBinding {α : Type} (x : Float) (inner : Evaluation α) : Evaluation α :=
  ExceptT.mk fun run =>
    let (outcome, after) := inner.run { run with binding := some x }
    (outcome, { after with binding := run.binding })

end Evaluation

/-- The intervals that a plot samples when no count is given. -/
def defaultPlotSteps : Float := 100.0

/-- The step counts that a double counts up to one by one. -/
def maxPlotSteps : Nat := Nat.pow 2 53

namespace Scope

open Evaluation

/-- Looks at the clock and halts from the deadline on. -/
def checkDeadline (scope : Scope) : Evaluation Unit := do
  let run ← get
  set { run with ticks := run.ticks + 1 }
  if scope.deadline ≤ scope.clock.reading run.ticks then throw .timeout

/-- The quantity of one of a unit. -/
def unitQuantity (scope : Scope) (unit : UnitId) (name : String) : Evaluation Quantity :=
  match scope.units.get? unit with
  | none => fail (.unknownName name)
  | some entry =>
      match scope.units.toRoot? unit with
      | none => fail (.noConversion name)
      | some (root, factor) => do
          modify fun run =>
            { run with usedCurrency := run.usedCurrency || (entry.isCurrency && root != unit) }
          return {
            value := factor
            dimension := some root
            display := some unit
            approximate := entry.approximate
            precision := entry.precision }

/-- What a name stands for when `x` is not bound to it: a variable, else a unit, else itself where
unknowns are allowed. -/
def lookUp (scope : Scope) (name : String) : Evaluation Quantity :=
  match scope.constants.find? name with
  | some v => return (v.value.map Quantity.number).getD .symbol
  | none =>
      match scope.units.find? name with
      | some unit => scope.unitQuantity unit name
      | none =>
          if scope.settings.parse.unknownsEnabled then return .symbol
          else fail (.unknownName name)

/-- The value of a name. -/
def identifier (scope : Scope) (name : String) : Evaluation Quantity := do
  match name == "x", (← get).binding with
  | true, some x => return .number x
  | _, _ => scope.lookUp name

/-- Shows a quantity in another unit of its dimension. Symbols and undefined targets are left
alone. -/
def convert (scope : Scope) (q : Quantity) (name : String) : Evaluation Quantity :=
  if q.symbolic then return q
  else
    match scope.units.find? name with
    | none => fail (.unknownUnit name)
    | some unit => do
        let target ← scope.unitQuantity unit name
        if target.value.isNaN then return target
        else if target.dimension = q.dimension then
          return { q.merged target with display := some unit }
        else fail .incompatibleUnits

/-- The value of a function at evaluated arguments. -/
def applyFunction (scope : Scope) (f : NumericFunction) (arguments : List Quantity) : Quantity :=
  let merged := arguments.foldl Quantity.merged (.number 0.0)
  if merged.symbolic then merged
  else
    { merged with
      value := f.call scope.settings.parse.angleUnit (arguments.map Quantity.value) }

/-- Samples an expression of `x` at equal steps, the given count of times from the sample of that
number on. Points whose value is not a finite number are left out. -/
def samplePoints (scope : Scope) (sample : Evaluation Quantity) (start width : Float) :
    Nat → Nat → List (Float × Float) → Evaluation (List (Float × Float))
  | 0, _, points => return points.reverse
  | count + 1, i, points => do
      scope.checkDeadline
      let x := start + Float.ofNat i * width
      let y ← withBinding x sample
      let points := if y.value.isFinite && !y.symbolic then (x, y.value) :: points else points
      samplePoints scope sample start width count (i + 1) points

/-- What a plot of `body` leaves. -/
def plotPayload (scope : Scope) (body : Expr) (lower upper : Float)
    (points : List (Float × Float)) : PlotPayload :=
  let title := body.echo scope.settings.print.useUnicodeSigns
  ({ commands :=
      "set xrange [" ++ Decimal.plainText lower ++ ":" ++ Decimal.plainText upper ++
        "]\nplot \"1\" title \"" ++ title ++ "\" with lines" } : PlotPayload).withSeries
    "1" (PlotPayload.seriesText points)

/-- Plots an expression between two bounds and leaves the plot in the slot; the value is one. A step
count too large to be counted by a double never comes to its end, so it runs into the
deadline. -/
def plotBetween (scope : Scope) (body : Expr) (sample : Evaluation Quantity)
    (lower upper steps : Float) : Evaluation Quantity :=
  if upper ≤ lower || steps < 1.0 then fail .plotRange
  else do
    let count := (Binary64.ofFloat steps).wholePart
    let width := (upper - lower) / (if count < maxPlotSteps then Float.ofNat count else steps)
    let points ← scope.samplePoints sample lower width (count + 1) 0 []
    if maxPlotSteps ≤ count then throw .timeout
    modify fun run =>
      { run with plot := run.plot.put (scope.plotPayload body lower upper points) }
    return .number 1.0

mutual

/-- The value of an expression. Every node looks at the clock once. -/
def eval (scope : Scope) : Expr → Evaluation Quantity
  | .number value => do
      scope.checkDeadline
      return .number value
  | .name label => do
      scope.checkDeadline
      scope.identifier label
  | .neg operand => do
      scope.checkDeadline
      let q ← scope.eval operand
      return { q with value := -q.value }
  | .binary op left right => do
      scope.checkDeadline
      let l ← scope.eval left
      let r ← scope.eval right
      ofResult (Quantity.combine op l r)
  | .call function arguments => do
      scope.checkDeadline
      if function = "plot" then scope.plot arguments
      else
        match scope.functions.get? function with
        | none => fail (.unknownFunction function)
        | some f =>
            if f.accepts arguments.length then
              match ← scope.evalArguments function arguments with
              | none => return .undefined
              | some values => return scope.applyFunction f values
            else fail (.wrongArity function)
  | .convert operand unit => do
      scope.checkDeadline
      let q ← scope.eval operand
      scope.convert q unit

/-- The values of the arguments of a call, in order, up to the first that has a unit. That one is
reported and leaves no values. -/
def evalArguments (scope : Scope) (function : String) :
    List Expr → Evaluation (Option (List Quantity))
  | [] => return some []
  | first :: others => do
      let q ← scope.eval first
      if q.dimension.isSome then
        report (.dimensionedArgument function)
        return none
      else
        return (← scope.evalArguments function others).map (q :: ·)

/-- The bounds of a plot, in order, up to the first that is not a finite number. -/
def evalBounds (scope : Scope) : List Expr → Evaluation (Option (List Float))
  | [] => return some []
  | first :: others => do
      let q ← scope.eval first
      if q.dimension.isSome || q.symbolic || !q.value.isFinite then
        report .plotBounds
        return none
      else
        return (← scope.evalBounds others).map (q.value :: ·)

/-- `plot(body, lower, upper)` and `plot(body, lower, upper, steps)`. -/
def plot (scope : Scope) : List Expr → Evaluation Quantity
  | [] => fail (.wrongArity "plot")
  | body :: bounds =>
      if bounds.length = 2 ∨ bounds.length = 3 then do
        match ← scope.evalBounds bounds with
        | some [lower, upper] =>
            scope.plotBetween body (scope.eval body) lower upper defaultPlotSteps
        | some [lower, upper, steps] =>
            scope.plotBetween body (scope.eval body) lower upper steps
        | _ => return .undefined
      else fail (.wrongArity "plot")

end

end Scope

end Reckoner
