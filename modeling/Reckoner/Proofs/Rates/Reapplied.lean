import Reckoner.Proofs.Rates.Reload
import Reckoner.StandardEngine.Definitions

/-!
# Applying a batch of rates again

The rates of a batch may refer to the currencies that it changes, but all of them are evaluated
before any result is stored. Applying the same batch again therefore changes no more than factors,
and none of them just when the first time left every currency with the value of its rate.
-/

namespace Reckoner

open StandardEngine

/-- The engine as it is when the rows of a batch were applied and the rates are to be evaluated. -/
def StandardEngine.applied (engine : StandardEngine) (base : UnitId) (rows : List RateRow)
    (warnOnStale : Bool) : StandardEngine :=
  Engine.setStaleWarning (applyRows base engine rows).2 warnOnStale

/-- A base that is accepted is the unit of its name and the anchor. -/
theorem acceptedBase?_eq_some_iff {engine : StandardEngine} {name : String} {base : UnitId} :
    acceptedBase? engine name = some base ↔
      engine.units.find? name = some base ∧ engine.anchor = some base := by
  unfold acceptedBase?
  split
  · next found anchor hfound hanchor =>
    simp only [Engine.resolveUnit, Engine.anchorCurrency] at hfound hanchor
    rw [hfound, hanchor]
    split
    · next heq =>
      rw [← heq]
      simp
    · next hne =>
      constructor
      · intro h
        cases h
      · rintro ⟨hfound', hanchor'⟩
        exact absurd (Option.some.inj (hfound'.trans hanchor'.symm)) hne
  · next hnone =>
    constructor
    · intro h
      cases h
    · rintro ⟨hfound, hanchor⟩
      exact absurd hanchor (hnone base base hfound)

/-- A batch whose base is accepted is applied and then evaluated. -/
theorem updateRates_eq {engine : StandardEngine} {name : String} {base : UnitId}
    (hbase : acceptedBase? engine name = some base) (clock : Clock) (rows : List RateRow)
    (warnOnStale : Bool) : (updateRates engine clock rows name warnOnStale).2 =
      (engine.applied base rows warnOnStale).reloadCurrencies clock := by
  rw [updateRates, hbase]
  rfl

section again

variable {engine once : StandardEngine} {name : String} {base : UnitId} {rows : List RateRow}
  {warn : Bool} {clock : Clock}

/-- Rows that were applied and evaluated are applied again without effect. -/
theorem applied_again (hbase : acceptedBase? engine name = some base)
    (honce : (updateRates engine clock rows name warn).2 = once) (warn' : Bool) :
    once.applied base rows warn' = { once with staleWarning := warn' } := by
  obtain ⟨hfound, -⟩ := acceptedBase?_eq_some_iff.mp hbase
  have hsame := (sameButFactors_reloadCurrencies (engine.applied base rows warn) clock).units
  rw [← updateRates_eq hbase, honce] at hsame
  rw [applied, applyRows_again hfound hsame]
  rfl

/-- A base that was accepted is accepted again. -/
theorem acceptedBase?_again (hbase : acceptedBase? engine name = some base)
    (honce : (updateRates engine clock rows name warn).2 = once) :
    acceptedBase? once name = some base := by
  obtain ⟨hfound, hanchor⟩ := acceptedBase?_eq_some_iff.mp hbase
  have hrows := applyRows_eq (UnitTable.index_lt_of_find? hfound) rows
  have hunits := (sameButFactors_reloadCurrencies (engine.applied base rows warn) clock).units
  rw [updateRates_eq hbase] at honce
  rw [honce] at hunits
  rw [acceptedBase?_eq_some_iff]
  constructor
  · rw [← hunits.find?_eq]
    show (applyRows base engine rows).2.units.find? name = some base
    rw [hrows]
    exact (find?_allRerated _ rows name).trans (find?_allNamed hfound rows)
  · rw [← honce]
    show (applyRows base engine rows).2.anchor = some base
    rw [hrows]
    exact hanchor

end again

/-- The warning about stale rates does not matter to the rates. -/
theorem settled_withStaleWarning (engine : StandardEngine) (warn : Bool) :
    ({ engine with staleWarning := warn } : StandardEngine).Settled ↔ engine.Settled :=
  Iff.rfl

/-- A batch that is applied twice, with no rate running out of time. The second time changes nothing
but factors. It changes none of them just when the first time left every currency with the value of
its rate, as it does if it left the conversions of the units alone that the rates refer to. -/
theorem updateRates_again {engine once twice : StandardEngine} {name : String} {base : UnitId}
    {rows : List RateRow} {warn warn' : Bool} {clock clock' : Clock}
    (hbase : acceptedBase? engine name = some base)
    (honce : (updateRates engine clock rows name warn).2 = once)
    (htwice : (updateRates once clock' rows name warn').2 = twice)
    (hfirst : (engine.applied base rows warn).reloadsInTime clock = true)
    (hsecond : (once.applied base rows warn').reloadsInTime clock' = true) :
    once.units.SameButFactors twice.units ∧
      (twice.units = once.units ↔ once.Settled) ∧
      ((∀ entry ∈ (engine.applied base rows warn).units.units, isRated entry = true →
          (engine.applied base rows warn).SameConversions once entry.expression) →
        twice.units = once.units) := by
  have hagain := applied_again hbase honce warn'
  rw [updateRates_eq (acceptedBase?_again hbase honce), hagain] at htwice
  rw [hagain] at hsecond
  have hunits := (sameButFactors_reloadCurrencies { once with staleWarning := warn' } clock').units
  have hsettled :=
    (reloadCurrencies_eq_self_iff hsecond).trans (settled_withStaleWarning once warn')
  rw [htwice] at hunits hsettled
  refine ⟨hunits, hsettled, fun hsame => hsettled.mpr ?_⟩
  rw [updateRates_eq hbase] at honce
  rw [← honce] at hsame ⊢
  exact settled_reloadCurrencies hfirst hsame

/-- Plain numbers as rates are the same after the first time. -/
theorem updateRates_again_plain :
    let clock := Clock.metered 0 1
    let rows : List RateRow := [⟨"USD", "0.9"⟩, ⟨"GBP", "1.2"⟩]
    let once := (updateRates withDefinitions clock rows "EUR" true).2
    let twice := (updateRates once clock rows "EUR" false).2
    acceptedBase? withDefinitions "EUR" = some ⟨4⟩ ∧
      (withDefinitions.applied ⟨4⟩ rows true).reloadsInTime clock = true ∧
      (once.applied ⟨4⟩ rows false).reloadsInTime clock = true ∧ twice.units = once.units := by
  intro clock rows once twice
  have hbase : acceptedBase? withDefinitions "EUR" = some ⟨4⟩ := by decide +kernel
  have hfirst : (withDefinitions.applied ⟨4⟩ rows true).reloadsInTime clock = true := by
    decide +kernel
  have hsecond : (once.applied ⟨4⟩ rows false).reloadsInTime clock = true := by decide +kernel
  have hsettled : once.Settled := by decide +kernel
  obtain ⟨-, hsame, -⟩ := updateRates_again hbase rfl rfl hfirst hsecond
  exact ⟨hbase, hfirst, hsecond, hsame.mpr hsettled⟩

-- The pound is evaluated before the dollar has its rate, so it gets its own one time later.
example : ¬ (updateRates withDefinitions (.metered 0 1)
    [⟨"USD", "0.9"⟩, ⟨"GBP", "USD/EUR"⟩] "EUR" true).2.Settled := by
  decide +kernel

end Reckoner
