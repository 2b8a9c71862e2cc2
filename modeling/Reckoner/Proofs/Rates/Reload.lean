import Reckoner.Proofs.Evaluation.Agreement
import Reckoner.Proofs.Rates.Batch

/-!
# Evaluating all rates again

A reload evaluates the rates of all currencies against the table as it is and stores the results
only then. This file describes it without a clock: where no rate runs out of time, each currency
gets the value that its rate has when time stands still. That value is a function of the table, and
of those of its units only that the rate refers to.
-/

namespace Reckoner

open Reckoner.Expr

/-- A clock that stands still. -/
def Clock.stopped : Clock :=
  fun _ => 0

namespace StandardEngine

/-- The value of a rate against the table of an engine. -/
def rate (engine : StandardEngine) (expression : String) : Float :=
  (engine.evaluateRate .stopped 0 expression).1

/-- Whether an evaluation of a rate that begins with some reading of the clock comes to its end. -/
def rateInTime (engine : StandardEngine) (clock : Clock) (ticks : Nat) (expression : String) :
    Bool :=
  match parse expression with
  | .error _ => true
  | .ok e => (engine.evaluate {} clock rateBudget { ticks } e).1.isOk

/-- Whether the rates of some currencies, evaluated one after another, all come to their ends. -/
def ratesInTime (engine : StandardEngine) (clock : Clock) :
    Nat → List (UnitId × UnitEntry) → Bool
  | _, [] => true
  | ticks, (_, entry) :: others =>
      engine.rateInTime clock ticks entry.expression &&
        engine.ratesInTime clock (engine.evaluateRate clock ticks entry.expression).2 others

/-- The currencies that have a rate, with their places. -/
def rated (engine : StandardEngine) : List (UnitId × UnitEntry) :=
  engine.units.entries.filter fun (_, entry) => isRated entry

/-- Whether no rate runs out of time when all of them are evaluated again. -/
def reloadsInTime (engine : StandardEngine) (clock : Clock) : Bool :=
  engine.ratesInTime clock 0 engine.rated

/-- The names in a text stand for units with the same conversions in two engines. -/
def SameConversions (engine engine' : StandardEngine) (text : String) : Prop :=
  ∀ e, parse text = .ok e → ∀ name ∈ e.mentions, ∀ unit, engine.units.find? name = some unit →
    engine.units.toRoot? unit = engine'.units.toRoot? unit

/-- Two engines that agree in all that evaluations read but the factors of units. -/
structure SameButFactors (engine engine' : StandardEngine) : Prop where
  units : engine.units.SameButFactors engine'.units
  constants_eq : engine.constants = engine'.constants
  functions_eq : engine.functions = engine'.functions

/-- An engine agrees with itself. -/
theorem SameButFactors.refl (engine : StandardEngine) : engine.SameButFactors engine :=
  ⟨fun _ => rfl, rfl, rfl⟩

variable {engine engine' : StandardEngine} {clock : Clock} {ticks : Nat} {text : String}

/-- One of a unit is the same quantity where the unit has the same conversion. -/
theorem unitQuantity_congr {s t : Scope} (hunits : s.units.SameButFactors t.units) {unit : UnitId}
    (hroot : s.units.toRoot? unit = t.units.toRoot? unit) (name : String) :
    s.unitQuantity unit name = t.unitQuantity unit name := by
  unfold Scope.unitQuantity
  rw [← hroot]
  cases hentry : s.units.get? unit with
  | none =>
    have hsame := hunits unit
    rw [hentry, Option.map_none] at hsame
    rw [Option.map_eq_none_iff.mp hsame.symm]
  | some entry =>
    obtain ⟨factor, hentry'⟩ := hunits.exists_get? hentry
    rw [hentry']

/-- The names in a text stand for the same, if the units have the same conversions. -/
theorem SameConversions.sameUnit (hengines : engine.SameButFactors engine')
    (hsame : engine.SameConversions engine' text) {e : Expr} (hparse : parse text = .ok e)
    {settings : Settings} {clock clock' : Clock} {deadline deadline' : Int} :
    ∀ name ∈ e.mentions, (engine.scope settings clock deadline).SameUnit
      (engine'.scope settings clock' deadline') name :=
  fun name hname => ⟨hengines.units.find?_eq name, fun unit hunit =>
    unitQuantity_congr hengines.units (hsame e hparse name hname unit hunit) name⟩

/-- The value of a rate that comes to its end depends neither on the clock nor on the factors of
units that the rate does not refer to. -/
theorem evaluateRate_eq (hengines : engine.SameButFactors engine')
    (hsame : engine.SameConversions engine' text)
    (hin : engine.rateInTime clock ticks text = true) :
    (engine.evaluateRate clock ticks text).1 = engine'.rate text := by
  unfold rate evaluateRate
  unfold rateInTime at hin
  cases hparse : parse text with
  | error fault => rfl
  | ok e =>
    rw [hparse] at hin
    dsimp only at hin ⊢
    have hbudget : (0 : Int) < 0 + rateBudget * millisecond := by decide
    have hrelaxes : (engine.scope {} clock (clock.reading ticks + rateBudget * millisecond)).Relaxes
        (engine'.scope {} .stopped (Clock.stopped.reading 0 + rateBudget * millisecond)) := {
      constants_eq := hengines.constants_eq
      functions_eq := hengines.functions_eq
      settings_eq := rfl
      patient := fun _ => hbudget }
    have hstart : Run.SameButTicks { ticks := ticks + 1 } { ticks := 0 + 1 } := ⟨_, rfl⟩
    cases hrun : engine.evaluate {} clock rateBudget { ticks } e with
    | mk outcome run =>
      cases outcome with
      | error halt =>
        rw [hrun] at hin
        cases hin
      | ok q =>
        obtain ⟨run', hrun', ticks', rfl⟩ :=
          hrelaxes.eval (hsame.sameUnit hengines hparse) hstart hrun
        have hstopped : engine'.evaluate {} .stopped rateBudget { ticks := 0 } e = _ := hrun'
        rw [hstopped]

/-- Where no rate runs out of time, all of them have the values that they have when time stands
still. -/
theorem evaluateRates_eq {rated : List (UnitId × UnitEntry)}
    (hin : engine.ratesInTime clock ticks rated = true) :
    (engine.evaluateRates clock ticks rated).1 =
      rated.map fun (unit, entry) => (unit, engine.rate entry.expression) := by
  induction rated generalizing ticks with
  | nil => rfl
  | cons first others ih =>
    obtain ⟨unit, entry⟩ := first
    obtain ⟨hfirst, hothers⟩ := Bool.and_eq_true_iff.mp hin
    have hvalue := evaluateRate_eq (.refl engine) (fun _ _ _ _ _ _ => rfl) hfirst
    show (unit, (engine.evaluateRate clock ticks entry.expression).1) ::
      (engine.evaluateRates clock (engine.evaluateRate clock ticks entry.expression).2 others).1 = _
    rw [hvalue, ih hothers]
    rfl

/-- A rate that is among those that come to their ends comes to its end. -/
theorem exists_rateInTime {rated : List (UnitId × UnitEntry)} {unit : UnitId} {entry : UnitEntry}
    (hin : engine.ratesInTime clock ticks rated = true) (hmem : (unit, entry) ∈ rated) :
    ∃ ticks, engine.rateInTime clock ticks entry.expression = true := by
  induction rated generalizing ticks with
  | nil => cases hmem
  | cons first others ih =>
    obtain ⟨hfirst, hothers⟩ := Bool.and_eq_true_iff.mp hin
    rcases List.mem_cons.mp hmem with rfl | hlater
    · exact ⟨ticks, hfirst⟩
    · exact ih hothers hlater

/-- A unit with the value of its rate, if it is a currency that has one. -/
def refreshed (engine : StandardEngine) (entry : UnitEntry) : UnitEntry :=
  if isRated entry then { entry with factor := engine.rate entry.expression } else entry

/-- Storing the values of all rates at their places is the same as going through all units. -/
theorem foldl_setFactor (engine : StandardEngine) (front units : List UnitEntry) :
    ((((units.zipIdx front.length).map fun (entry, i) => ((⟨i⟩ : UnitId), entry)).filter
        fun (_, entry) => isRated entry).map
          fun (unit, entry) => (unit, engine.rate entry.expression)).foldl
        (fun table (unit, factor) => table.setFactor unit factor) ⟨front ++ units⟩ =
      (⟨front ++ units.map engine.refreshed⟩ : UnitTable) := by
  induction units generalizing front with
  | nil => rfl
  | cons entry units ih =>
    have hnext := ih (front ++ [engine.refreshed entry])
    rw [List.length_append, List.length_singleton, List.append_assoc, List.append_assoc,
      List.singleton_append, List.singleton_append] at hnext
    rw [List.zipIdx_cons, List.map_cons, List.map_cons, List.filter_cons]
    dsimp only
    by_cases hrated : isRated entry
    · have hstored : (⟨front ++ entry :: units⟩ : UnitTable).setFactor ⟨front.length⟩
          (engine.rate entry.expression) = ⟨front ++ engine.refreshed entry :: units⟩ := by
        have hlt : front.length < (front ++ entry :: units).length := by simp
        rw [UnitTable.setFactor, UnitTable.modify, List.modify_eq_take_cons_drop hlt]
        simp [refreshed, hrated]
      rw [if_pos hrated, List.map_cons, List.foldl_cons]
      dsimp only
      rw [hstored, hnext]
    · have hkept : engine.refreshed entry = entry := if_neg hrated
      rw [if_neg hrated, ← hnext, hkept]

/-- A reload gives every currency the value of its rate. -/
theorem units_reloadCurrencies (hin : engine.reloadsInTime clock = true) :
    (engine.reloadCurrencies clock).units = ⟨engine.units.units.map engine.refreshed⟩ := by
  have hvalues := evaluateRates_eq hin
  show (engine.evaluateRates clock 0 engine.rated).1.foldl _ engine.units = _
  rw [hvalues]
  exact foldl_setFactor engine [] engine.units.units

/-- Storing factors leaves all else of the units as it is. -/
theorem sameButFactors_foldl_setFactor (table : UnitTable) (factors : List (UnitId × Float)) :
    table.SameButFactors
      (factors.foldl (fun table (unit, factor) => table.setFactor unit factor) table) := by
  induction factors generalizing table with
  | nil => exact fun _ => rfl
  | cons first others ih =>
    intro unit
    refine Eq.trans ?_ (ih (table.setFactor first.1 first.2) unit)
    rw [UnitTable.setFactor, UnitTable.get?_modify, Option.map_map]
    congr 1
    funext entry
    rw [Function.comp]
    split <;> rfl

/-- A reload changes the factors of units and the time of the last reload, in time or not. -/
theorem sameButFactors_reloadCurrencies (engine : StandardEngine) (clock : Clock) :
    engine.SameButFactors (engine.reloadCurrencies clock) where
  units := sameButFactors_foldl_setFactor engine.units _
  constants_eq := rfl
  functions_eq := rfl

/-- Every currency has the value that its rate has against the table that it is in. -/
def Settled (engine : StandardEngine) : Prop :=
  ∀ entry ∈ engine.units.units, isRated entry = true → entry.factor = engine.rate entry.expression

instance (engine : StandardEngine) : Decidable engine.Settled :=
  inferInstanceAs (Decidable (∀ entry ∈ engine.units.units, isRated entry = true →
    entry.factor = engine.rate entry.expression))

/-- A reload leaves a settled table as it is, and no other. -/
theorem reloadCurrencies_eq_self_iff (hin : engine.reloadsInTime clock = true) :
    (engine.reloadCurrencies clock).units = engine.units ↔ engine.Settled := by
  have hself : engine.units.units.map engine.refreshed = engine.units.units ↔
      ∀ entry ∈ engine.units.units, engine.refreshed entry = entry := by
    have hmap : engine.units.units.map engine.refreshed = engine.units.units.map id ↔ _ :=
      List.map_inj_left
    rwa [List.map_id] at hmap
  rw [units_reloadCurrencies hin]
  constructor
  · intro hsame entry hentry hrated
    have hrefreshed := hself.mp (congrArg UnitTable.units hsame) entry hentry
    rw [refreshed, if_pos hrated] at hrefreshed
    exact (congrArg UnitEntry.factor hrefreshed).symm
  · intro hsettled
    refine congrArg UnitTable.mk (hself.mpr fun entry hentry => ?_)
    by_cases hrated : isRated entry
    · rw [refreshed, if_pos hrated, ← hsettled entry hentry hrated]
    · exact if_neg hrated

/-- A unit that has a rate is among those whose rates are evaluated. -/
theorem exists_mem_rated {entry : UnitEntry} (hentry : entry ∈ engine.units.units)
    (hrated : isRated entry = true) : ∃ unit, (unit, entry) ∈ engine.rated := by
  obtain ⟨i, hi⟩ := List.getElem?_of_mem hentry
  exact ⟨⟨i⟩, List.mem_filter.mpr ⟨UnitTable.mem_entries.mpr hi, hrated⟩⟩

/-- A reload settles the table if it leaves the conversions of the units alone that the rates refer
to. -/
theorem settled_reloadCurrencies (hin : engine.reloadsInTime clock = true)
    (hsame : ∀ entry ∈ engine.units.units, isRated entry = true →
      engine.SameConversions (engine.reloadCurrencies clock) entry.expression) :
    (engine.reloadCurrencies clock).Settled := by
  have hengines := sameButFactors_reloadCurrencies engine clock
  -- Both values of a rate are that of the evaluation that came to its end.
  have hrate : ∀ entry ∈ engine.units.units, isRated entry = true →
      engine.rate entry.expression = (engine.reloadCurrencies clock).rate entry.expression := by
    intro entry hentry hrated
    obtain ⟨unit, hmem⟩ := exists_mem_rated hentry hrated
    obtain ⟨ticks, hticks⟩ := exists_rateInTime hin hmem
    have hbefore := evaluateRate_eq (.refl engine) (fun _ _ _ _ _ _ => rfl) hticks
    have hafter := evaluateRate_eq hengines (hsame entry hentry hrated) hticks
    exact hbefore.symm.trans hafter
  intro entry' hentry' hrated'
  rw [units_reloadCurrencies hin] at hentry'
  obtain ⟨entry, hentry, rfl⟩ := List.mem_map.mp hentry'
  by_cases hrated : isRated entry
  · rw [refreshed, if_pos hrated]
    exact hrate entry hentry hrated
  · rw [refreshed, if_neg hrated] at hrated'
    exact absurd hrated' hrated

end StandardEngine

end Reckoner
