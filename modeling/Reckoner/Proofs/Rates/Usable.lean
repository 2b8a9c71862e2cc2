import Reckoner.Proofs.Evaluation.Shown
import Reckoner.Proofs.Rates.Refreshed

/-!
# Which currencies can be used

A rate is whatever its text comes to. This file follows it to the answers that are shown in its
currency: a currency can be converted just when its rate has a value, this value is finite and is
the factor of the conversion, and amounts keep their signs as long as it is positive. A value that
is zero or less is stored like any other, and then they do not.
-/

namespace Reckoner

open Text Token

namespace StandardEngine

variable {engine before : StandardEngine} {anchor unit : UnitId} {entry : UnitEntry}
  {clock : Clock}

/-- An engine has its factors from a reload of another one, which is standard, and agrees with it in
everything else that evaluations read. -/
structure IsReloadOf (engine before : StandardEngine) (anchor : UnitId) (clock : Clock) : Prop where
  isStandard : before.IsStandard anchor
  units_eq : engine.units = (before.reloadCurrencies clock).units
  constants_eq : before.constants = engine.constants
  functions_eq : before.functions = engine.functions

namespace IsReloadOf

/-- Nothing but factors differs. -/
theorem sameButFactors (hreload : engine.IsReloadOf before anchor clock) :
    before.SameButFactors engine where
  units := by
    rw [hreload.units_eq]
    exact (sameButFactors_reloadCurrencies before clock).units
  constants_eq := hreload.constants_eq
  functions_eq := hreload.functions_eq

/-- A batch of rates leaves factors that come from one reload. -/
theorem updateRates (hreload : engine.IsReloadOf before anchor clock)
    (hengine : engine.IsStandard anchor) (clock' : Clock) (rows : List RateRow) (baseName : String)
    (warnOnStale : Bool) :
    ∃ before' clock'', (updateRates engine clock' rows baseName warnOnStale).2.IsReloadOf before'
      anchor clock'' := by
  cases hbase : acceptedBase? engine baseName with
  | none =>
    rw [Reckoner.updateRates, hbase]
    exact ⟨before, clock, hreload⟩
  | some base =>
    obtain ⟨-, hanchor⟩ := acceptedBase?_eq_some_iff.mp hbase
    obtain rfl := Option.some.inj (hengine.isAnchored.1.symm.trans hanchor)
    rw [updateRates_eq hbase]
    exact ⟨_, clock', hengine.applied rows warnOnStale, rfl, rfl, rfl⟩

/-- The factor of a currency other than the anchor is what its rate came to. -/
theorem factor_eq (hreload : engine.IsReloadOf before anchor clock)
    (hentry : engine.units.get? unit = some entry) (his : entry.isCurrency = true)
    (hne : unit ≠ anchor) :
    entry.factor = (before.evaluateRate clock (before.turn clock unit) entry.expression).1 := by
  rw [hreload.units_eq, get?_reloadCurrencies] at hentry
  obtain ⟨earlier, hearlier, rfl⟩ := Option.map_eq_some_iff.mp hentry
  by_cases hrated : isRated earlier
  · rw [if_pos hrated]
  · rw [if_neg hrated] at his
    have hbase := hreload.isStandard.isAnchored.2.base_eq unit earlier hearlier his hne
    exact absurd (Bool.and_eq_true_iff.mpr ⟨his, by rw [hbase]; rfl⟩) hrated

/-- The conversion of a currency: the anchor is worth one of itself, and every other currency what
its rate came to, if that is a value. -/
theorem toRoot?_eq_some_iff (hreload : engine.IsReloadOf before anchor clock)
    (hentry : engine.units.get? unit = some entry) (his : entry.isCurrency = true)
    {root : UnitId} {factor : Float} :
    engine.units.toRoot? unit = some (root, factor) ↔ root = anchor ∧
      if unit = anchor then factor = 1.0
      else before.HasRate clock (before.turn clock unit) entry.expression factor := by
  have hanchored : engine.units.Anchored anchor := by
    rw [hreload.units_eq]
    exact (hreload.isStandard.reloadCurrencies clock).isAnchored.2
  rw [hanchored.toRoot?_eq hentry his]
  by_cases hunit : unit = anchor
  · rw [if_pos hunit, if_pos hunit]
    simp only [Option.some.injEq, Prod.mk.injEq, eq_comm]
  · rw [if_neg hunit, if_neg hunit, hasRate_iff, ← hreload.factor_eq hentry his hunit]
    by_cases hfinite : entry.factor.isFinite
    · rw [if_pos hfinite, Binary64.one_mul_of_isFinite hfinite]
      constructor
      · intro hpair
        obtain ⟨rfl, rfl⟩ := Prod.mk.inj (Option.some.inj hpair)
        exact ⟨rfl, rfl, hfinite⟩
      · rintro ⟨rfl, rfl, -⟩
        rfl
    · rw [if_neg hfinite]
      constructor
      · intro hnone
        cases hnone
      · rintro ⟨-, rfl, hfinite'⟩
        exact absurd hfinite' hfinite

/-- A currency cannot be converted just when it is not the anchor and its rate has no value. -/
theorem toRoot?_eq_none_iff (hreload : engine.IsReloadOf before anchor clock)
    (hentry : engine.units.get? unit = some entry) (his : entry.isCurrency = true) :
    engine.units.toRoot? unit = none ↔ unit ≠ anchor ∧
      ∀ value, ¬ before.HasRate clock (before.turn clock unit) entry.expression value := by
  cases hroot : engine.units.toRoot? unit with
  | none =>
    have hnot (factor : Float) : ¬ if unit = anchor then factor = 1.0
        else before.HasRate clock (before.turn clock unit) entry.expression factor := fun h => by
      cases hroot.symm.trans ((hreload.toRoot?_eq_some_iff hentry his).mpr ⟨rfl, h⟩)
    have hne : unit ≠ anchor := by
      intro hunit
      exact hnot 1.0 (by rw [if_pos hunit])
    simp only [if_neg hne] at hnot
    exact iff_of_true rfl ⟨hne, hnot⟩
  | some pair =>
    obtain ⟨-, hfactor⟩ := (hreload.toRoot?_eq_some_iff hentry his).mp hroot
    refine iff_of_false (fun h => by cases h) ?_
    rintro ⟨hne, hnone⟩
    rw [if_neg hne] at hfactor
    exact hnone _ hfactor

end IsReloadOf

/-- The standard definitions have no rate yet, so that a reload changes nothing. -/
theorem isReloadOf_withDefinitions (clock : Clock) :
    withDefinitions.IsReloadOf withDefinitions ⟨4⟩ clock :=
  ⟨isStandard_withDefinitions, rfl, rfl, rfl⟩

/-- A currency that can be converted shows amounts under the first of its names. -/
theorem IsStandard.shows (hengine : engine.IsStandard anchor)
    (hentry : engine.units.get? unit = some entry) (his : entry.isCurrency = true) {root : UnitId}
    {factor : Float} (hroot : engine.units.toRoot? unit = some (root, factor)) :
    engine.units.Shows unit root factor entry.displayName := by
  have hnames : ∃ name others, entry.names = name :: others := by
    by_cases hunit : unit = anchor
    · rw [hunit, hengine.isAnchored.2.get?_anchor] at hentry
      obtain rfl := Option.some.inj hentry
      exact ⟨_, _, rfl⟩
    · obtain ⟨name, hname⟩ := hengine.singleNamed unit entry hentry his hunit
      exact ⟨name, [], hname⟩
  obtain ⟨name, others, hname⟩ := hnames
  have hshown : entry.displayName = name := by
    rw [UnitEntry.displayName, hname]
    rfl
  exact ⟨⟨entry, others, hentry, by rw [hname, hshown]⟩, hroot, UnitTable.isRoot_of_rootFrom hroot⟩

/-- An amount that is shown in a unit with a finite factor above zero is undefined just when the
value is, and has the sign of the value. -/
theorem render_inUnit_of_pos {settings : Settings} {q : Quantity} {root : UnitId} {factor : Float}
    {name : String} (hdisplay : q.display = some unit)
    (hshows : engine.units.Shows unit root factor name) (hfinite : factor.isFinite = true)
    (hpos : 0.0 < factor) :
    (Binary64.ofFloat (q.value / factor)).isNegative = (Binary64.ofFloat q.value).isNegative ∧
      engine.render settings q =
        if q.value.isNaN then "undefined"
        else amountText settings q (q.value / factor) ++ " " ++ name := by
  obtain ⟨hnan, hsign⟩ := Binary64.div_pos (x := q.value) hfinite hpos
  refine ⟨hsign, ?_⟩
  rw [render_inUnit hdisplay hshows, hnan]

end StandardEngine

namespace Session

open StandardEngine

/-- The factors of the currencies come from a reload after every request. -/
theorem exists_isReloadOf_serve {session : Session StandardEngine} {anchor : UnitId}
    (hengine : session.engine.IsStandard anchor)
    (hreload : ∃ before clock, session.engine.IsReloadOf before anchor clock) (request : Request) :
    ∃ before clock, (session.serve request).engine.IsReloadOf before anchor clock := by
  obtain ⟨before, clock, hreload⟩ := hreload
  cases request with
  | call c =>
    obtain ⟨messages, hcall⟩ := sameDefinitions_call session c
    rw [serve, hcall]
    exact ⟨before, clock, hreload.isStandard, hreload.units_eq, hreload.constants_eq,
      hreload.functions_eq⟩
  | rates clock' rows baseName warnOnStale =>
    exact hreload.updateRates hengine clock' rows baseName warnOnStale
  | setOption command =>
    rw [serve, setOption]
    split <;> exact ⟨before, clock, hreload⟩

/-- The factors of the currencies come from a reload after any sequence of requests. -/
theorem exists_isReloadOf_afterRequests {session : Session StandardEngine} {anchor : UnitId}
    (hengine : session.engine.IsStandard anchor)
    (hreload : ∃ before clock, session.engine.IsReloadOf before anchor clock)
    (requests : List Request) :
    ∃ before clock, (session.afterRequests requests).engine.IsReloadOf before anchor clock := by
  induction requests generalizing session with
  | nil => exact hreload
  | cons request requests ih =>
    exact ih (isStandard_serve hengine request) (exists_isReloadOf_serve hengine hreload request)

/-- Whatever a session with the standard definitions was asked for, there is the engine before the
last reload, and a currency is used as its rate came out there: it cannot be converted just when it
is not the anchor and its rate has no value. Otherwise its factor is that value, or one for the
anchor. It is finite, and above zero unless the rate has a value that is not. Where it is above
zero, every amount that is shown in the currency has the sign of the amount in the anchor, and is
undefined only if that one is. -/
theorem afterRequests_usable (settings : Settings) (plot : PlotSlot) (requests : List Request) :
    let engine :=
      (afterRequests { engine := withDefinitions, settings, plot } requests).engine
    ∃ (anchor : UnitId) (before : StandardEngine) (clock : Clock),
      engine.anchor = some anchor ∧ before.SameButFactors engine ∧
      engine.units = (before.reloadCurrencies clock).units ∧
      ∀ unit entry, engine.units.get? unit = some entry → entry.isCurrency = true →
        let HasRate := before.HasRate clock (before.turn clock unit) entry.expression
        (engine.units.toRoot? unit = none ↔ unit ≠ anchor ∧ ∀ value, ¬ HasRate value) ∧
        ∀ root factor, engine.units.toRoot? unit = some (root, factor) →
          root = anchor ∧ (if unit = anchor then factor = 1.0 else HasRate factor) ∧
          factor.isFinite = true ∧ (0.0 < factor ∨ unit ≠ anchor ∧ factor ≤ 0.0) ∧
          (0.0 < factor → ∀ settings q, q.display = some unit →
            (Binary64.ofFloat (q.value / factor)).isNegative =
                (Binary64.ofFloat q.value).isNegative ∧
              engine.render settings q =
                if q.value.isNaN then "undefined"
                else amountText settings q (q.value / factor) ++ " " ++ entry.displayName) := by
  intro engine
  have hengine : engine.IsStandard ⟨4⟩ :=
    isStandard_afterRequests isStandard_withDefinitions requests
  obtain ⟨before, clock, hreload⟩ : ∃ before clock, engine.IsReloadOf before ⟨4⟩ clock :=
    exists_isReloadOf_afterRequests isStandard_withDefinitions
      ⟨_, .stopped, isReloadOf_withDefinitions .stopped⟩ requests
  refine ⟨⟨4⟩, before, clock, hengine.isAnchored.1, hreload.sameButFactors, hreload.units_eq, ?_⟩
  intro unit entry hentry his HasRate
  refine ⟨hreload.toRoot?_eq_none_iff hentry his, fun root factor hroot => ?_⟩
  have hshows := hengine.shows hentry his hroot
  obtain ⟨rfl, hfactor⟩ := (hreload.toRoot?_eq_some_iff hentry his).mp hroot
  refine ⟨rfl, hfactor, ?_⟩
  have hvalue : factor.isFinite = true ∧ (0.0 < factor ∨ unit ≠ ⟨4⟩ ∧ factor ≤ 0.0) := by
    by_cases hunit : unit = ⟨4⟩
    · rw [if_pos hunit] at hfactor
      rw [hfactor]
      exact ⟨by decide, .inl (by decide)⟩
    · rw [if_neg hunit] at hfactor
      exact ⟨hfactor.finite,
        (Binary64.pos_or_nonpos hfactor.finite).imp id fun hle => ⟨hunit, hle⟩⟩
  exact ⟨hvalue.1, hvalue.2, fun hpos settings q hdisplay =>
    render_inUnit_of_pos hdisplay hshows hvalue.1 hpos⟩

/-- Two euros below zero are stored as the rate of a dollar and change the sign of what is shown. -/
example :
    let engine :=
      (Reckoner.updateRates withDefinitions (.metered 0 1) [⟨"USD", "-2"⟩] "EUR" false).2
    let amount := engine.evaluate {} (.metered 0 1) 500 {}
      (.convert (.binary .juxtapose (.number 5.0) (.name "EUR")) "USD")
    amount.1.map (engine.render {}) = .ok "approx. -2.50 USD" ∧ amount.2.messages = [] := by
  decide +kernel

end Session

end Reckoner
