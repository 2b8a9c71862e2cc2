import Reckoner.Evaluation

/-!
# Engines

What a session needs of an expression engine. Sessions, rate updates and the catalog of variables
are written against this contract alone; `StandardEngine` is the engine that comes with the
library.
-/

namespace Reckoner

/-- A failure that an engine cannot put into a message. -/
inductive EngineFault where
  | recursionLimit (depth : Nat)
  | exhausted (what : String)
deriving DecidableEq

/-- The text of a failure. -/
def EngineFault.message : EngineFault → String
  | .recursionLimit depth => "expression nests deeper than " ++ toString depth ++ " levels"
  | .exhausted what => what

/-- An expression as it was read, and its answer. -/
structure Evaluated where
  parsed : String
  formatted : String
deriving DecidableEq, Inhabited

/-- How an evaluation ended, with the plot slot and the engine after it. -/
structure EngineRun (σ : Type) where
  outcome : Except EngineFault Evaluated
  plot : PlotSlot
  engine : σ

/-- An engine with states of type `σ`. -/
class Engine (σ : Type) where
  /-- Whether the definitions are loaded; without them nothing is evaluated. -/
  isLoaded : σ → Bool
  clearMessages : σ → σ
  /-- Turns local number marks and typographic operators into the plain form. -/
  normalizeInput : σ → ParseSettings → String → String
  /-- Reads, evaluates and formats a text within a budget of milliseconds. -/
  evaluateAndFormat : σ → Clock → Settings → Nat → String → PlotSlot → EngineRun σ
  /-- Takes the newest message. -/
  nextMessage : σ → Option Message × σ
  resolveUnit : σ → String → Option UnitId
  /-- The currency that all others are multiples of. -/
  anchorCurrency : σ → Option UnitId
  isCurrencyUnit : σ → UnitId → Bool
  createAlias : σ → AliasSpec → UnitId × σ
  /-- Makes changes to a currency in order, unless the unit does not allow any. -/
  editCurrency : σ → UnitId → List CurrencyEdit → Option σ
  setStaleWarning : σ → Bool → σ
  /-- Evaluates the expressions of all currencies again. -/
  reloadCurrencies : σ → Clock → σ
  /-- All variables in the order in which they were added. -/
  variableIds : σ → List VariableId
  isKnown : σ → VariableId → Bool
  isHidden : σ → VariableId → Bool
  /-- The name to show, given whether it should be short and whether it may leave ASCII. -/
  preferredName : σ → VariableId → Bool → Bool → String
  description : σ → VariableId → String
  aliasCount : σ → VariableId → Nat
  /-- The name of a given number, counted from one. -/
  aliasName : σ → VariableId → Nat → Option String

end Reckoner
