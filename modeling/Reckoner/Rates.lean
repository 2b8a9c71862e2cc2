import Reckoner.Session

/-!
# Exchange rates

A table of rates refreshes the currencies of an engine in one batch. The table is relative to a base
that must be the engine's anchor currency, or nothing is done. Each row then meets one of four
ends, whatever happens to the others, and a report lists them in the order of the rows.
-/

namespace Reckoner

/-- One rate: one of the named currency is `rate` of the base. -/
structure RateRow where
  name : String
  /-- The rate as an expression. -/
  rate : String
deriving DecidableEq, Inhabited

/-- A row that named a unit which is no currency that can be changed. -/
structure SkippedRow where
  index : Nat
  name : String
deriving DecidableEq, Inhabited

/-- What a batch did. -/
structure RateReport where
  /-- Whether the base was the anchor currency; otherwise nothing was done. -/
  baseAccepted : Bool := false
  created : List String := []
  updated : List String := []
  skipped : List SkippedRow := []
deriving DecidableEq, Inhabited

/-- Whether every row was applied. -/
def RateReport.isSuccess (report : RateReport) : Bool :=
  report.baseAccepted && report.skipped.isEmpty

/-- What became of a row. -/
inductive RowOutcome where
  /-- it names the base itself -/
  | ignored
  | created
  | updated
  | skipped
deriving DecidableEq

/-- The power of ten to which amounts in a refreshed currency are known. -/
def currencyPrecision : Int := -2

/-- The changes that a row makes to its currency. -/
def RateRow.edits (row : RateRow) (base : UnitId) : List CurrencyEdit :=
  [.base base, .expression row.rate, .approximate true, .precision currencyPrecision,
    .changed false]

/-- The report on a batch, from what became of each of its rows. -/
def RateReport.ofOutcomes (rows : List RateRow) (outcomes : List RowOutcome) : RateReport :=
  let named := rows.zip outcomes
  let withOutcome (wanted : RowOutcome) : List String :=
    (named.filter fun (_, outcome) => outcome == wanted).map fun (row, _) => row.name
  { baseAccepted := true
    created := withOutcome .created
    updated := withOutcome .updated
    skipped :=
      (named.zipIdx.filter fun ((_, outcome), _) => outcome == .skipped).map
        fun ((row, _), i) => ⟨i, row.name⟩ }

variable {σ : Type} [Engine σ]

/-- Makes the changes of a row to its currency. One that refuses them is skipped. -/
def applyEdits (engine : σ) (base unit : UnitId) (row : RateRow) (done : RowOutcome) :
    RowOutcome × σ :=
  match Engine.editCurrency engine unit (row.edits base) with
  | some engine => (done, engine)
  | none => (.skipped, engine)

/-- Applies one row. A name without a unit gets one. -/
def applyRow (base : UnitId) (engine : σ) (row : RateRow) : RowOutcome × σ :=
  match Engine.resolveUnit engine row.name with
  | some unit =>
      if unit = base then (.ignored, engine)
      else if Engine.isCurrencyUnit engine unit then applyEdits engine base unit row .updated
      else (.skipped, engine)
  | none =>
      let (unit, engine) := Engine.createAlias engine { name := row.name, base }
      applyEdits engine base unit row .created

/-- Applies the rows one after another. -/
def applyRows (base : UnitId) (engine : σ) : List RateRow → List RowOutcome × σ
  | [] => ([], engine)
  | row :: rows =>
      let (outcome, engine) := applyRow base engine row
      let (outcomes, engine) := applyRows base engine rows
      (outcome :: outcomes, engine)

/-- The unit of the base, if it is the anchor currency. -/
def acceptedBase? (engine : σ) (name : String) : Option UnitId :=
  match Engine.resolveUnit engine name, Engine.anchorCurrency engine with
  | some base, some anchor => if base = anchor then some base else none
  | _, _ => none

/-- Applies a batch of rates and reports what became of the rows. After the last row the warning
about stale rates is set as asked and all rates are evaluated again. -/
def updateRates (engine : σ) (clock : Clock) (rows : List RateRow) (baseName : String)
    (warnOnStale : Bool) : RateReport × σ :=
  match acceptedBase? engine baseName with
  | none => ({}, engine)
  | some base =>
      let (outcomes, engine) := applyRows base engine rows
      let engine := Engine.setStaleWarning engine warnOnStale
      (RateReport.ofOutcomes rows outcomes, Engine.reloadCurrencies engine clock)

/-- Applies a batch of rates to the engine of a session. -/
def Session.updateRates (session : Session σ) (clock : Clock) (rows : List RateRow)
    (baseName : String) (warnOnStale : Bool) : RateReport × Session σ :=
  let (report, engine) := Reckoner.updateRates session.engine clock rows baseName warnOnStale
  (report, { session with engine })

end Reckoner
