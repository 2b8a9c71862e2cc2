import Reckoner.Answer.Approximate
import Reckoner.Answer.Exact
import Reckoner.Engine
import Reckoner.Expr.Parser

/-!
# The standard engine

Arithmetic, a handful of functions, units of a single dimension, currencies with rates that
can be refreshed, named constants and plots.
-/

namespace Reckoner

/-- The state of the standard engine. -/
structure StandardEngine where
  units : UnitTable := {}
  constants : VariableTable := {}
  functions : FunctionTable := .empty
  anchor : Option UnitId := none
  /-- The messages not yet taken, the newest first. -/
  messages : List Message := []
  staleWarning : Bool := true
  /-- The reading of the clock when the rates were last refreshed. -/
  ratesRefreshedAt : Option Int := none
  isLoaded : Bool := false
deriving Inhabited

/-- Nanoseconds in a millisecond. -/
def millisecond : Int := 1000000

/-- The age past which rates are stale: seven days, in nanoseconds. -/
def staleRateAge : Int := 7 * 24 * 60 * 60 * 1000 * millisecond

/-- The budget for evaluating one rate, in milliseconds. -/
def rateBudget : Nat := 100

/-- The message about stale rates. -/
def staleRatesMessage : Message :=
  ⟨.warning, "Exchange rates may be out of date."⟩

/-- The message about an evaluation that ran out of time. -/
def timeoutMessage : Message :=
  ⟨.error, "Timeout reached."⟩

/-- What a character of an input stands for in the plain form. -/
def plainForm (decimalComma : Bool) (c : Char) : List Char :=
  if c = '×' ∨ c = '·' ∨ c = '⋅' ∨ c = '∙' then ['*']
  else if c = '÷' ∨ c = '∕' then ['/']
  else if c = '−' ∨ c = '–' then ['-']
  else if c = '²' then ['^', '2']
  else if c = '³' then ['^', '3']
  else if decimalComma ∧ c = ',' then ['.']
  else if decimalComma ∧ c = ';' then [',']
  else [c]

/-- An input in the plain form, without blanks at its ends. -/
def plainInput (parse : ParseSettings) (text : String) : String :=
  String.ofList (Text.trimmed (text.toList.flatMap (plainForm parse.decimalComma)))

namespace StandardEngine

/-- What an evaluation under a deadline reads of the engine. -/
def scope (engine : StandardEngine) (settings : Settings) (clock : Clock) (deadline : Int) :
    Scope where
  units := engine.units
  constants := engine.constants
  functions := engine.functions
  settings := settings
  clock := clock
  deadline := deadline

/-- Evaluates an expression within a budget of milliseconds that begins with the next reading of
the clock. -/
def evaluate (engine : StandardEngine) (settings : Settings) (clock : Clock) (budget : Nat)
    (start : Run) (e : Expr) : Except Halt Quantity × Run :=
  let deadline := clock.reading start.ticks + budget * millisecond
  ((engine.scope settings clock deadline).eval e).run { start with ticks := start.ticks + 1 }

/-- Whether the rates were never refreshed, or longer ago than they stay fresh. Rates refreshed in
the future are fresh. -/
def ratesAreStale (engine : StandardEngine) (now : Int) : Bool :=
  match engine.ratesRefreshedAt with
  | none => true
  | some refreshed => staleRateAge < now - refreshed

/-- The unit in which a quantity is shown, with how many of the root unit make one of it. -/
def displayUnit? (engine : StandardEngine) (q : Quantity) : Option (UnitId × Float) := do
  let unit ← q.display
  let (_, factor) ← engine.units.toRoot? unit
  return (unit, factor)

/-- The text of a quantity: its amount in the unit it is shown in, and the name of that unit. What
is undefined has no unit. -/
def render (engine : StandardEngine) (settings : Settings) (q : Quantity) : String :=
  let (value, suffix) :=
    match engine.displayUnit? q with
    | some (unit, factor) =>
        (q.value / factor,
          " " ++ ((engine.units.get? unit).map UnitEntry.displayName).getD "")
    | none => (q.value, "")
  let number :=
    if q.approximate && value.isFinite then
      Answer.approximate settings.print q.precision value
    else Answer.exact settings.print value
  if value.isNaN then number else number ++ suffix

/-- Reads, evaluates and formats a text. A text that is no expression and an evaluation out of
time are reported as messages; only one that nests too deeply is a failure. The warning about
stale rates comes before the messages of the evaluation itself. -/
def evaluateAndFormat (engine : StandardEngine) (clock : Clock) (settings : Settings)
    (budget : Nat) (text : String) (plot : PlotSlot) : EngineRun StandardEngine :=
  match Expr.parse text with
  | .error .tooDeep => ⟨.error (.recursionLimit maxDepth), plot, engine⟩
  | .error (.invalid fault) =>
      ⟨.ok ⟨text, ""⟩, plot,
        { engine with messages := ⟨.error, fault.message⟩ :: engine.messages }⟩
  | .ok e =>
      let parsed := e.echo settings.print.useUnicodeSigns
      let (outcome, run) := engine.evaluate settings clock budget { plot } e
      let isStale :=
        run.usedCurrency && engine.staleWarning && engine.ratesAreStale (clock.reading run.ticks)
      let messages := run.messages ++ if isStale then [staleRatesMessage] else []
      match outcome with
      | .ok q =>
          ⟨.ok ⟨parsed, if q.symbolic then parsed else engine.render settings q⟩, run.plot,
            { engine with messages := messages ++ engine.messages }⟩
      | .error .timeout =>
          ⟨.ok ⟨parsed, ""⟩, run.plot,
            { engine with messages := timeoutMessage :: messages ++ engine.messages }⟩

/-- The value of a rate, with the number of the next reading of the clock. Only a plain number
reached without any message is a rate; everything else is undefined. -/
def evaluateRate (engine : StandardEngine) (clock : Clock) (ticks : Nat) (expression : String) :
    Float × Nat :=
  match Expr.parse expression with
  | .error _ => (undefinedValue, ticks)
  | .ok e =>
      let (outcome, run) := engine.evaluate {} clock rateBudget { ticks } e
      match outcome with
      | .ok q =>
          (if q.dimension.isNone && !q.symbolic && run.messages.isEmpty then q.value
            else undefinedValue, run.ticks)
      | .error .timeout => (undefinedValue, run.ticks)

/-- The rates of some currencies, all evaluated with the engine as it is, with the number of the
next reading of the clock. -/
def evaluateRates (engine : StandardEngine) (clock : Clock) :
    Nat → List (UnitId × UnitEntry) → List (UnitId × Float) × Nat
  | ticks, [] => ([], ticks)
  | ticks, (unit, entry) :: others =>
      let (factor, ticks) := engine.evaluateRate clock ticks entry.expression
      let (factors, ticks) := engine.evaluateRates clock ticks others
      ((unit, factor) :: factors, ticks)

/-- Whether a unit is a currency whose rate can change. -/
def isRated (entry : UnitEntry) : Bool :=
  entry.isCurrency && entry.base.isSome

/-- Evaluates all rates and then stores them. -/
def reloadCurrencies (engine : StandardEngine) (clock : Clock) : StandardEngine :=
  let rated := engine.units.entries.filter fun (_, entry) => isRated entry
  let (factors, ticks) := engine.evaluateRates clock 0 rated
  { engine with
    units := factors.foldl (fun table (unit, factor) => table.setFactor unit factor) engine.units
    ratesRefreshedAt := some (clock.reading ticks) }

/-- Makes changes to a currency other than a root. -/
def editCurrency (engine : StandardEngine) (unit : UnitId) (edits : List CurrencyEdit) :
    Option StandardEngine :=
  match engine.units.get? unit with
  | none => none
  | some entry =>
      if isRated entry then
        some { engine with
          units := engine.units.modify unit fun entry => edits.foldl CurrencyEdit.apply entry }
      else none

/-- Takes the newest message. -/
def nextMessage (engine : StandardEngine) : Option Message × StandardEngine :=
  match engine.messages with
  | [] => (none, engine)
  | newest :: others => (some newest, { engine with messages := others })

/-- Adds a unit as a multiple of another. -/
def createAlias (engine : StandardEngine) (spec : AliasSpec) : UnitId × StandardEngine :=
  let (unit, units) := engine.units.add (.ofSpec spec)
  (unit, { engine with units })

/-- The units that are currencies. -/
def currencyUnits (engine : StandardEngine) : List UnitEntry :=
  engine.units.units.filter (·.isCurrency)

end StandardEngine

instance : Engine StandardEngine where
  isLoaded := StandardEngine.isLoaded
  clearMessages engine := { engine with messages := [] }
  normalizeInput _ := plainInput
  evaluateAndFormat := StandardEngine.evaluateAndFormat
  nextMessage := StandardEngine.nextMessage
  resolveUnit engine name := engine.units.find? name
  anchorCurrency := StandardEngine.anchor
  isCurrencyUnit engine unit := (engine.units.get? unit).any UnitEntry.isCurrency
  createAlias := StandardEngine.createAlias
  editCurrency := StandardEngine.editCurrency
  setStaleWarning engine enabled := { engine with staleWarning := enabled }
  reloadCurrencies := StandardEngine.reloadCurrencies
  variableIds engine := engine.constants.ids
  isKnown engine v := (engine.constants.get? v).any Variable.isKnown
  isHidden engine v := (engine.constants.get? v).any Variable.isHidden
  preferredName engine v abbreviated unicode :=
    ((engine.constants.get? v).map (·.preferredName abbreviated unicode)).getD ""
  description engine v := ((engine.constants.get? v).map Variable.title).getD ""
  aliasCount engine v := ((engine.constants.get? v).map (·.names.length)).getD 0
  aliasName engine v number :=
    match number, engine.constants.get? v with
    | i + 1, some entry => entry.names[i]?.map VariableName.name
    | _, _ => none

end Reckoner
