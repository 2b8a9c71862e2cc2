import Reckoner.Proofs.Evaluation.Uncertainty
import Reckoner.Proofs.Session.Answered

/-!
# The warning about stale rates

Whether an evaluation used a rate is noted where a unit is looked up, deep inside of the expression,
and read when all is done. This file proves that the note is complete: an expression that has a
value used a rate just when it refers to a currency which is a multiple of another one. The warning
then stands below all messages of the evaluation, so that it is never shown in place of an error.
-/

namespace Reckoner

/-- A unit is a currency other than its own root. -/
def UnitTable.isDerivedCurrency (table : UnitTable) (unit : UnitId) : Bool :=
  (table.get? unit).any UnitEntry.isCurrency && (table.toRoot? unit).any (·.1 != unit)

namespace Scope

variable {scope : Scope} {binding : Option Float}

/-! ## Expressions that settle -/

/-- An expression comes to a number or an amount, and nothing is reported meanwhile. -/
structure Settles (scope : Scope) (binding : Option Float) (e : Expr) : Prop where
  quiet : (scope.outcome binding e).faults = []
  numeric : (scope.outcome binding e).value.symbolic = false

/-- Both operands of an operator that settles do so, and the operator has an answer. -/
theorem Settles.binary {op : Operator} {left right : Expr}
    (h : scope.Settles binding (.binary op left right)) :
    scope.Settles binding left ∧ scope.Settles binding right ∧
      ∃ q, Quantity.combine op (scope.outcome binding left).value
        (scope.outcome binding right).value = .ok q := by
  obtain ⟨hquiet, hnumeric⟩ := h
  rw [outcome] at hquiet hnumeric
  dsimp only [Outcome.andThen] at hquiet hnumeric
  obtain ⟨hafterLeft, hleft⟩ := List.append_eq_nil_iff.mp hquiet
  obtain ⟨hcombined, hright⟩ := List.append_eq_nil_iff.mp hafterLeft
  cases hresult : Quantity.combine op (scope.outcome binding left).value
      (scope.outcome binding right).value with
  | error fault =>
    rw [hresult] at hcombined
    cases hcombined
  | ok q =>
    rw [hresult] at hnumeric
    obtain ⟨value, dimension, display, rfl⟩ := Quantity.exists_eq_of_combine hresult
    obtain ⟨hleftNumeric, hrightNumeric⟩ := Bool.or_eq_false_iff.mp hnumeric
    exact ⟨⟨hleft, hleftNumeric⟩, ⟨hright, hrightNumeric⟩, _, rfl⟩

/-- A call that settles is one of a function that takes its arguments, and these settle. -/
theorem Settles.call {function : String} {arguments : List Expr}
    (h : scope.Settles binding (.call function arguments)) :
    (∃ f, scope.functions.get? function = some f ∧ f.accepts arguments.length = true) ∧
      (scope.argumentsOutcome binding function arguments).faults = [] ∧
      ∀ a ∈ arguments, scope.Settles binding a := by
  obtain ⟨hquiet, hnumeric⟩ := h
  rw [outcome] at hquiet hnumeric
  cases hfunction : scope.functions.get? function with
  | none =>
    rw [hfunction] at hquiet
    cases hquiet
  | some f =>
    rw [hfunction] at hquiet hnumeric
    dsimp only at hquiet hnumeric
    split at hquiet
    · next haccepts =>
      rw [if_pos haccepts] at hnumeric
      obtain ⟨-, hevaluated⟩ := List.append_eq_nil_iff.mp hquiet
      obtain ⟨heach, hvalues⟩ := argumentsOutcome_of_quiet hevaluated
      dsimp only [Outcome.andThen] at hnumeric
      rw [hvalues] at hnumeric
      obtain ⟨value, happlied⟩ := scope.exists_applyFunction_eq f
        (arguments.map fun a => (scope.outcome binding a).value)
      dsimp only at hnumeric
      rw [happlied] at hnumeric
      -- One symbol among the arguments would make the value of the call a symbol.
      rw [Quantity.symbolic_foldl_merged, Bool.or_eq_false_iff, List.any_map] at hnumeric
      exact ⟨⟨f, rfl, haccepts⟩, hevaluated, fun a ha =>
        ⟨heach a ha, Bool.eq_false_iff.mpr (List.any_eq_false.mp hnumeric.2 a ha)⟩⟩
    · cases hquiet

/-- What is converted settles if the conversion does, and the target is a unit that has a root. -/
theorem Settles.convert {operand : Expr} {name : String}
    (h : scope.Settles binding (.convert operand name)) :
    scope.Settles binding operand ∧ ∃ unit, scope.units.find? name = some unit ∧
      (scope.unitOutcome unit name).faults = [] := by
  obtain ⟨hquiet, hnumeric⟩ := h
  rw [outcome] at hquiet hnumeric
  obtain ⟨hconverted, hoperand⟩ := List.append_eq_nil_iff.mp hquiet
  dsimp only [Outcome.andThen] at hconverted hnumeric
  unfold convertOutcome at hconverted hnumeric
  split at hconverted
  · next hsymbolic =>
    rw [if_pos hsymbolic] at hnumeric
    cases hsymbolic.symm.trans hnumeric
  · next hplain =>
    refine ⟨⟨hoperand, Bool.eq_false_iff.mpr hplain⟩, ?_⟩
    cases hunit : scope.units.find? name with
    | none =>
      rw [hunit] at hconverted
      cases hconverted
    | some unit =>
      rw [hunit] at hconverted
      exact ⟨unit, rfl, (List.append_eq_nil_iff.mp hconverted).2⟩

/-! ## Currencies that are met -/

/-- Looking up a unit that has a root meets the currency that it is. -/
theorem usedCurrency_unitOutcome {unit : UnitId} {name : String}
    (hquiet : (scope.unitOutcome unit name).faults = []) :
    (scope.unitOutcome unit name).usedCurrency = scope.units.isDerivedCurrency unit := by
  unfold unitOutcome at hquiet ⊢
  unfold UnitTable.isDerivedCurrency
  cases hentry : scope.units.get? unit with
  | none =>
    rw [hentry] at hquiet
    cases hquiet
  | some entry =>
    cases hroot : scope.units.toRoot? unit with
    | none =>
      rw [hentry, hroot] at hquiet
      cases hquiet
    | some pair => rfl

/-- A name meets the currency that it stands for. -/
theorem usedCurrency_nameOutcome {label : String}
    (hquiet : (scope.nameOutcome binding label).faults = []) :
    (scope.nameOutcome binding label).usedCurrency =
      (scope.unitOf? binding label).toList.any scope.units.isDerivedCurrency := by
  unfold nameOutcome at hquiet ⊢
  unfold unitOf?
  cases hbound : if label == "x" then binding else none with
  | some x => rfl
  | none =>
    rw [hbound] at hquiet
    cases hconstant : scope.constants.find? label with
    | some v => rfl
    | none =>
      rw [hconstant] at hquiet
      cases hunit : scope.units.find? label with
      | some unit =>
        rw [hunit] at hquiet
        show (scope.unitOutcome unit label).usedCurrency = ([unit]).any _
        rw [usedCurrency_unitOutcome hquiet, List.any_cons, List.any_nil, Bool.or_false]
      | none =>
        dsimp only
        split <;> rfl

/-- A conversion meets the currency that is its target. -/
theorem usedCurrency_convertOutcome {q : Quantity} {name : String} {unit : UnitId}
    (hnumeric : q.symbolic = false) (hunit : scope.units.find? name = some unit)
    (hquiet : (scope.unitOutcome unit name).faults = []) :
    (scope.convertOutcome q name).usedCurrency = scope.units.isDerivedCurrency unit := by
  rw [convertOutcome, if_neg (Bool.eq_false_iff.mp hnumeric), hunit]
  dsimp only [Outcome.andThen]
  rw [usedCurrency_unitOutcome hquiet]
  split
  · exact Bool.or_false _
  · split <;> exact Bool.or_false _

/-- Arguments meet what each of them does, if none is refused. -/
theorem usedCurrency_argumentsOutcome {function : String} {arguments : List Expr}
    (hquiet : (scope.argumentsOutcome binding function arguments).faults = [])
    (heach : ∀ a ∈ arguments, (scope.outcome binding a).usedCurrency =
      (scope.references binding a).any scope.units.isDerivedCurrency) :
    (scope.argumentsOutcome binding function arguments).usedCurrency =
      (scope.referencesAll binding arguments).any scope.units.isDerivedCurrency := by
  induction arguments with
  | nil => rfl
  | cons first others ih =>
    obtain ⟨hfirst, hothers⟩ := List.forall_mem_cons.mp heach
    rw [argumentsOutcome] at hquiet ⊢
    rw [referencesAll, List.any_append, ← hfirst]
    dsimp only [Outcome.andThen] at hquiet ⊢
    obtain ⟨hrest, -⟩ := List.append_eq_nil_iff.mp hquiet
    split at hrest
    · cases hrest
    · next hplain =>
      obtain ⟨-, hrest⟩ := List.append_eq_nil_iff.mp hrest
      rw [if_neg hplain, ← ih hrest hothers]
      dsimp only
      rw [Bool.or_false]

/-- An expression that settles meets the currencies that it refers to, and no others. -/
theorem usedCurrency_outcome {e : Expr} (hsettles : scope.Settles binding e) :
    (scope.outcome binding e).usedCurrency =
      (scope.references binding e).any scope.units.isDerivedCurrency := by
  induction e using Expr.induction with
  | number value => rfl
  | name label => exact usedCurrency_nameOutcome hsettles.quiet
  | neg operand ih =>
    rw [outcome, references]
    dsimp only [Outcome.andThen]
    rw [Bool.or_false]
    exact ih ⟨hsettles.quiet, hsettles.numeric⟩
  | binary op left right ihleft ihright =>
    obtain ⟨hleft, hright, q, hcombined⟩ := hsettles.binary
    rw [outcome, references, List.any_append, ← ihleft hleft, ← ihright hright]
    dsimp only [Outcome.andThen]
    rw [hcombined]
    dsimp only [Outcome.ofResult]
    rw [Bool.or_false]
  | call function arguments ih =>
    obtain ⟨⟨f, hfunction, haccepts⟩, hquiet, heach⟩ := hsettles.call
    rw [references, ← usedCurrency_argumentsOutcome hquiet fun a ha => ih a ha (heach a ha),
      outcome, hfunction]
    dsimp only
    rw [if_pos haccepts]
    dsimp only [Outcome.andThen]
    split <;> exact Bool.or_false _
  | convert operand name ih =>
    obtain ⟨hoperand, unit, hunit, htarget⟩ := hsettles.convert
    rw [outcome, references, List.any_append, ← ih hoperand, hunit]
    dsimp only [Outcome.andThen]
    rw [usedCurrency_convertOutcome hoperand.numeric hunit htarget]
    show _ = (_ || ([unit]).any _)
    rw [List.any_cons, List.any_nil, Bool.or_false]

end Scope

/-! ## The warning -/

namespace StandardEngine

variable {engine : StandardEngine} {clock : Clock} {settings : Settings} {budget : Nat}
  {text : String} {plot : PlotSlot} {e : Expr}

/-- The rates were never refreshed, or more than seven days ago. (Times are in nanoseconds.) -/
def HasStaleRates (engine : StandardEngine) (now : Int) : Prop :=
  engine.ratesRefreshedAt = none ∨
    ∃ refreshed, engine.ratesRefreshedAt = some refreshed ∧
      refreshed + 7 * 24 * 60 * 60 * 1000000000 < now

/-- The age of the rates is looked at as it should be. -/
theorem ratesAreStale_iff {now : Int} :
    engine.ratesAreStale now = true ↔ engine.HasStaleRates now := by
  unfold ratesAreStale HasStaleRates staleRateAge millisecond
  cases engine.ratesRefreshedAt with
  | none => simp
  | some refreshed =>
    simp only [decide_eq_true_eq, reduceCtorEq, Option.some.injEq, exists_eq_left', false_or]
    omega

/-- An evaluation that used a rate which may be out of date. -/
structure UsesStaleRates (engine : StandardEngine) (scope : Scope) (e : Expr) (now : Int) :
    Prop where
  meets : ∃ unit ∈ scope.references none e, scope.units.isDerivedCurrency unit = true
  enabled : engine.staleWarning = true
  stale : engine.HasStaleRates now

/-- The messages of an evaluation that comes to its end, with the warning below them if there is
one. -/
theorem messages_of_ok (hparse : Expr.parse text = .ok e) {q : Quantity} {run : Run}
    (hrun : engine.evaluate settings clock budget { plot } e = (.ok q, run)) :
    (engine.evaluateAndFormat clock settings budget text plot).engine.messages =
      run.messages ++
        (if run.usedCurrency && engine.staleWarning &&
            engine.ratesAreStale (clock.reading run.ticks) then [staleRatesMessage] else []) ++
        engine.messages := by
  unfold evaluateAndFormat
  rw [hparse]
  dsimp only
  rw [hrun]

/-- Whatever the engine, the settings, the clock and the time of the last refresh: when an
expression without plots has been evaluated to a number or an amount and nothing was reported
meanwhile, then the warning is the only message if the expression refers to a currency other than
its own root, warnings are wanted, and the rates were never refreshed or more than seven days ago;
otherwise there is no message. With every evaluation, also one that is cut short, all messages of
its own are errors and newer than the warning, so that the message which is shown is one of them. -/
theorem evaluateAndFormat_staleness (hparse : Expr.parse text = .ok e) :
    let scope := engine.scope settings clock (clock.reading 0 + budget * millisecond)
    let own := engine.evaluate settings clock budget { plot } e
    let after := (engine.evaluateAndFormat clock settings budget text plot).engine
    (∀ q, e.Plotless → own.1 = .ok q → q.symbolic = false → own.2.messages = [] →
      (engine.UsesStaleRates scope e (clock.reading own.2.ticks) →
        after.messages = staleRatesMessage :: engine.messages) ∧
      (¬ engine.UsesStaleRates scope e (clock.reading own.2.ticks) →
        after.messages = engine.messages)) ∧
    ∃ last, engine.Reported own.2 last after ∧ (∀ m ∈ last ++ own.2.messages, m.kind = .error) ∧
      (last ++ own.2.messages ≠ [] →
        ∃ m, (Engine.nextMessage after).1 = some m ∧ m.kind = .error) := by
  intro scope own after
  constructor
  · intro q hplotless hvalue hnumeric hquiet
    have hrun : engine.evaluate settings clock budget { plot } e = (.ok q, own.2) :=
      Prod.ext hvalue rfl
    have hmessages := messages_of_ok hparse hrun
    obtain ⟨hq, ticks, hafter⟩ := scope.computes_eval hplotless hrun
    have hsettles : scope.Settles none e := by
      constructor
      · rw [hafter] at hquiet
        exact List.map_eq_nil_iff.mp (List.append_eq_nil_iff.mp hquiet).1
      · rw [hq] at hnumeric
        exact hnumeric
    have hused : own.2.usedCurrency =
        (scope.references none e).any scope.units.isDerivedCurrency := by
      rw [← Scope.usedCurrency_outcome hsettles, hafter]
      exact Bool.false_or _
    have hwarned : (own.2.usedCurrency && engine.staleWarning &&
        engine.ratesAreStale (clock.reading own.2.ticks)) = true ↔
          engine.UsesStaleRates scope e (clock.reading own.2.ticks) := by
      rw [Bool.and_eq_true, Bool.and_eq_true, ratesAreStale_iff, hused, List.any_eq_true]
      exact ⟨fun ⟨⟨hmeets, henabled⟩, hstale⟩ => ⟨hmeets, henabled, hstale⟩,
        fun ⟨hmeets, henabled, hstale⟩ => ⟨⟨hmeets, henabled⟩, hstale⟩⟩
    rw [hquiet, List.nil_append] at hmessages
    constructor
    · intro huses
      rw [if_pos (hwarned.mpr huses)] at hmessages
      exact hmessages
    · intro hfresh
      rw [if_neg (mt hwarned.mp hfresh)] at hmessages
      exact hmessages
  · have hfaults : ∀ m ∈ own.2.messages, m.kind = .error := by
      intro m hm
      obtain ⟨fault, rfl⟩ := engine.isFault_of_mem_evaluate settings clock budget plot e m hm
      rfl
    obtain ⟨last, hreported, hlast⟩ : ∃ last, engine.Reported own.2 last after ∧
        ∀ m ∈ last, m.kind = .error := by
      cases hrun : own with
      | mk outcome run =>
        cases outcome with
        | ok q => exact ⟨[], reported_of_ok hparse hrun, fun m hm => absurd hm List.not_mem_nil⟩
        | error halt =>
          cases halt
          refine ⟨[timeoutMessage], (reported_of_timeout hparse hrun).2, fun m hm => ?_⟩
          rw [List.mem_singleton.mp hm]
          rfl
    have herrors : ∀ m ∈ last ++ own.2.messages, m.kind = .error := by
      intro m hm
      exact (List.mem_append.mp hm).elim (hlast m) (hfaults m)
    refine ⟨last, hreported, herrors, fun hsome => ?_⟩
    obtain ⟨newest, others, hown⟩ := List.exists_cons_of_ne_nil hsome
    obtain ⟨warnings, -, hmessages⟩ := hreported
    rw [hown, List.cons_append, List.cons_append] at hmessages
    refine ⟨newest, ?_, herrors newest (hown ▸ List.mem_cons_self)⟩
    show (StandardEngine.nextMessage after).1 = some newest
    rw [StandardEngine.nextMessage, hmessages]

/-- The warning comes with dollars that are converted to euros when the rates have been fresh for
seven days and a nanosecond. -/
theorem evaluateAndFormat_staleness_dollars :
    let clock := Clock.metered (7 * 24 * 60 * 60 * 1000000000) 1
    let refreshed := (updateRates withDefinitions clock [⟨"USD", "0.9"⟩] "EUR" true).2
    let engine : StandardEngine := { refreshed with ratesRefreshedAt := some 4 }
    let e := Expr.convert (.binary .juxtapose (.number 10.0) (.name "USD")) "EUR"
    let after := (engine.evaluateAndFormat clock {} 500 "10 USD to EUR" .empty).engine
    Expr.parse "10 USD to EUR" = .ok e ∧ after.messages = [staleRatesMessage] := by
  intro clock refreshed engine e after
  have hparse : Expr.parse "10 USD to EUR" = .ok e := by decide +kernel
  let own := engine.evaluate {} clock 500 { plot := .empty } e
  have hnumeric : own.1.map Quantity.symbolic = .ok false := by decide +kernel
  have hquiet : own.2.messages = [] := by decide +kernel
  have hticks : clock.reading own.2.ticks = 7 * 24 * 60 * 60 * 1000000000 + 5 := by
    decide +kernel
  have hplotless : e.Plotless :=
    .convert nofun (.binary nofun (.number nofun) (.name nofun))
  have hmeets : ((engine.scope {} clock (clock.reading 0 + (500 : Nat) * millisecond)).references
      none e).any engine.units.isDerivedCurrency = true := by
    decide +kernel
  cases hvalue : own.1 with
  | error halt =>
    rw [hvalue] at hnumeric
    cases hnumeric
  | ok q =>
    rw [hvalue] at hnumeric
    obtain ⟨hsettled, -⟩ := @evaluateAndFormat_staleness engine clock {} 500 _ .empty e hparse
    have huses : engine.UsesStaleRates
        (engine.scope {} clock (clock.reading 0 + (500 : Nat) * millisecond)) e
        (clock.reading own.2.ticks) := by
      refine ⟨List.any_eq_true.mp hmeets, by decide +kernel, .inr ⟨4, rfl, ?_⟩⟩
      rw [hticks]
      omega
    have hnone : engine.messages = [] := by decide +kernel
    refine ⟨hparse, ?_⟩
    rw [← hnone]
    exact (hsettled q hplotless hvalue (Except.ok.inj hnumeric) hquiet).1 huses

end StandardEngine

end Reckoner
