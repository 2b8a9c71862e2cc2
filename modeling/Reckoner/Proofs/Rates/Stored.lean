import Reckoner.Proofs.Rates.Anchored

/-!
# What a reload stores

A reload evaluates rate after rate, each from the reading of the clock where the one before it came
to its end, and stores the results only then. So there is a turn for every currency, and its factor
becomes the value that its rate has when the evaluation begins there, whether the others come to
their ends or run out of time. This file says so of the unit at each place, and when a text has a
value as a rate.
-/

namespace Reckoner

/-! ## Values of rates -/

namespace StandardEngine

variable {engine : StandardEngine} {clock : Clock} {ticks : Nat} {text : String} {value : Float}

/-- A text has a value as a rate if it is an expression of which the evaluation comes to its end
without a message, and gives a plain finite number. -/
structure HasRate (engine : StandardEngine) (clock : Clock) (ticks : Nat) (text : String)
    (value : Float) : Prop where
  evaluated : ∃ e q run, Expr.parse text = .ok e ∧
    engine.evaluate {} clock rateBudget { ticks } e = (.ok q, run) ∧ run.messages = [] ∧
    q.dimension = none ∧ q.symbolic = false ∧ q.value = value
  finite : value.isFinite = true

/-- The undefined value is not finite. -/
theorem isFinite_undefinedValue : undefinedValue.isFinite = false := by
  decide

/-- The values of rates are those that a reload finds and that are finite. -/
theorem hasRate_iff : engine.HasRate clock ticks text value ↔
    (engine.evaluateRate clock ticks text).1 = value ∧ value.isFinite = true := by
  constructor
  · rintro ⟨⟨e, q, run, hparse, hrun, hmessages, hdimension, hsymbolic, hvalue⟩, hfinite⟩
    refine ⟨?_, hfinite⟩
    rw [evaluateRate, hparse]
    dsimp only
    rw [hrun]
    dsimp only
    rw [hdimension, hsymbolic, hmessages]
    exact hvalue
  · rintro ⟨hvalue, hfinite⟩
    refine ⟨?_, hfinite⟩
    have hdefined : (engine.evaluateRate clock ticks text).1.isFinite = true := by rwa [hvalue]
    rw [evaluateRate] at hvalue hdefined
    split at hdefined
    · cases isFinite_undefinedValue.symm.trans hdefined
    · next e hparse =>
      rw [hparse] at hvalue
      dsimp only at hvalue hdefined
      cases hrun : engine.evaluate {} clock rateBudget { ticks } e with
      | mk outcome run =>
        rw [hrun] at hvalue hdefined
        cases outcome with
        | error halt => cases isFinite_undefinedValue.symm.trans hdefined
        | ok q =>
          dsimp only at hvalue hdefined
          split at hdefined
          · next hplain =>
            rw [if_pos hplain] at hvalue
            obtain ⟨hplain, hmessages⟩ := Bool.and_eq_true_iff.mp hplain
            obtain ⟨hdimension, hsymbolic⟩ := Bool.and_eq_true_iff.mp hplain
            exact ⟨e, q, run, hparse, hrun, List.isEmpty_iff.mp hmessages,
              Option.isNone_iff_eq_none.mp hdimension, by simpa using hsymbolic, hvalue⟩
          · cases isFinite_undefinedValue.symm.trans hdefined

/-! ## Turns -/

/-- The reading of the clock at which the evaluation of the rate of a unit begins in a reload: the
one after those of all rates before it. -/
def turn (engine : StandardEngine) (clock : Clock) (unit : UnitId) : Nat :=
  (engine.evaluateRates clock 0 (engine.rated.takeWhile fun pair => pair.1 != unit)).2

/-- Storing factors of other units leaves a unit as it is. -/
theorem get?_foldl_setFactor_of_not_mem (table : UnitTable) {factors : List (UnitId × Float)}
    {unit : UnitId} (hother : unit ∉ factors.map Prod.fst) :
    (factors.foldl (fun table (unit, factor) => table.setFactor unit factor) table).get? unit =
      table.get? unit := by
  induction factors generalizing table with
  | nil => rfl
  | cons first others ih =>
    obtain ⟨hfirst, hothers⟩ := not_or.mp (mt List.mem_cons.mpr hother)
    refine (ih (table.setFactor first.1 first.2) hothers).trans ?_
    rw [UnitTable.setFactor, UnitTable.get?_modify]
    simp only [if_neg hfirst, Option.map_id']

/-- Storing the rates of different units gives each of them the value that its own rate has from
where those before it came to their ends. -/
theorem get?_foldl_evaluateRates (engine : StandardEngine) (clock : Clock) (ticks : Nat)
    {rated : List (UnitId × UnitEntry)} (hapart : (rated.map Prod.fst).Nodup) (table : UnitTable)
    {unit : UnitId} {entry : UnitEntry} (hmem : (unit, entry) ∈ rated) :
    ((engine.evaluateRates clock ticks rated).1.foldl
        (fun table (unit, factor) => table.setFactor unit factor) table).get? unit =
      (table.get? unit).map fun before =>
        { before with
          factor := (engine.evaluateRate clock
            (engine.evaluateRates clock ticks (rated.takeWhile fun pair => pair.1 != unit)).2
            entry.expression).1 } := by
  induction rated generalizing ticks table with
  | nil => cases hmem
  | cons first others ih =>
    obtain ⟨hnew, hothers⟩ := List.nodup_cons.mp hapart
    let found := engine.evaluateRate clock ticks first.2.expression
    show ((engine.evaluateRates clock found.2 others).1.foldl _
      (table.setFactor first.1 found.1)).get? unit = _
    rcases List.mem_cons.mp hmem with rfl | hlater
    · have hkeys : unit ∉ (engine.evaluateRates clock found.2 others).1.map Prod.fst := by
        rw [fst_evaluateRates]
        exact hnew
      rw [get?_foldl_setFactor_of_not_mem _ hkeys, UnitTable.setFactor, UnitTable.get?_modify,
        List.takeWhile_cons_of_neg (by simp)]
      simp only [if_true]
      rfl
    · have hne : unit ≠ first.1 := by
        intro hsame
        exact hnew (hsame ▸ List.mem_map_of_mem hlater)
      rw [ih found.2 hothers _ hlater, UnitTable.setFactor, UnitTable.get?_modify,
        List.takeWhile_cons_of_pos (by simpa using hne.symm)]
      simp only [if_neg hne, Option.map_id']
      rfl

/-- No unit is rated twice. -/
theorem nodup_rated (engine : StandardEngine) : (engine.rated.map Prod.fst).Nodup := by
  have hentries : (engine.units.entries.map Prod.fst).Nodup := by
    have hplaces : engine.units.entries.map Prod.fst =
        (List.range engine.units.units.length).map UnitId.mk := by
      rw [UnitTable.entries, List.map_map, List.range_eq_range', ← List.zipIdx_map_snd 0,
        List.map_map]
      rfl
    rw [hplaces]
    exact List.Pairwise.map UnitId.mk (fun i j hne h => hne (congrArg UnitId.index h))
      List.nodup_range
  exact hentries.sublist (List.filter_sublist.map Prod.fst)

/-- A reload gives each rated unit the value that its rate has when its turn comes, and leaves all
other units as they are. -/
theorem get?_reloadCurrencies (engine : StandardEngine) (clock : Clock) (unit : UnitId) :
    (engine.reloadCurrencies clock).units.get? unit = (engine.units.get? unit).map fun entry =>
      if isRated entry then
        { entry with
          factor := (engine.evaluateRate clock (engine.turn clock unit) entry.expression).1 }
      else entry := by
  show ((engine.evaluateRates clock 0 engine.rated).1.foldl _ engine.units).get? unit = _
  by_cases hkey : unit ∈ engine.rated.map Prod.fst
  · obtain ⟨⟨_, entry⟩, hpair, rfl⟩ := List.mem_map.mp hkey
    obtain ⟨hmem, hrated⟩ := List.mem_filter.mp hpair
    rw [engine.get?_foldl_evaluateRates clock 0 engine.nodup_rated engine.units hpair,
      UnitTable.mem_entries.mp hmem, Option.map_some, Option.map_some, if_pos hrated]
    rfl
  · have hkeys : unit ∉ (engine.evaluateRates clock 0 engine.rated).1.map Prod.fst := by
      rwa [fst_evaluateRates]
    rw [get?_foldl_setFactor_of_not_mem _ hkeys]
    cases hentry : engine.units.get? unit with
    | none => rfl
    | some entry =>
      have hunrated : ¬ isRated entry = true := by
        intro hrated
        have hmem : (unit, entry) ∈ engine.units.entries := UnitTable.mem_entries.mpr hentry
        exact hkey (List.mem_map_of_mem (List.mem_filter.mpr ⟨hmem, hrated⟩))
      rw [Option.map_some, if_neg hunrated]

end StandardEngine

end Reckoner
