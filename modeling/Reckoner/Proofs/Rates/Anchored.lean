import Reckoner.Proofs.Rates.Reapplied
import Reckoner.Proofs.Session.Isolation

/-!
# Currencies hang on their anchor

Batches of rates may come with any names: empty ones, repeated ones, other names of the anchor,
names of units that are no currencies. This file proves that whatever a session was asked for, names
stay apart, the anchor stays the root it is, and every other currency is a direct multiple of it. A
currency can then be converted as soon as its own factor is a finite number.
-/

namespace Reckoner

/-! ## Tables with an anchor -/

/-- Where nothing is found, nothing passes the test. -/
theorem eq_false_of_lastIndex?_eq_none {α : Type} {test : α → Bool} {items : List α}
    (hnone : lastIndex? test items = none) : ∀ item ∈ items, test item = false := by
  induction items with
  | nil => simp
  | cons first rest ih =>
    rw [lastIndex?] at hnone
    split at hnone
    · cases hnone
    · next hrest =>
      split at hnone
      · cases hnone
      · next hfirst =>
        intro item hitem
        rcases List.mem_cons.mp hitem with rfl | hlater
        · exact Bool.eq_false_iff.mpr hfirst
        · exact ih hrest item hlater

/-- The currency that the standard engine relates all others to: a root, worth one of itself. -/
def UnitEntry.euro : UnitEntry :=
  .root ["EUR", "euro", "€"] "Currency" "Euro" true

namespace UnitTable

/-- No name belongs to two units. -/
def NamesApart (table : UnitTable) : Prop :=
  ∀ unit unit' entry entry', table.get? unit = some entry → table.get? unit' = some entry' →
    ∀ name ∈ entry.names, name ∈ entry'.names → unit = unit'

/-- The euro is at the place of the anchor, every other currency is a direct multiple of it, and no
name belongs to two units. -/
structure Anchored (table : UnitTable) (anchor : UnitId) : Prop where
  apart : table.NamesApart
  get?_anchor : table.get? anchor = some .euro
  base_eq : ∀ unit entry, table.get? unit = some entry → entry.isCurrency = true →
    unit ≠ anchor → entry.base = some anchor

variable {table table' : UnitTable} {anchor unit : UnitId} {entry : UnitEntry} {name : String}

/-- Where a name has no unit, no unit has that name. -/
theorem not_mem_names (hnone : table.find? name = none) (hentry : table.get? unit = some entry) :
    name ∉ entry.names := by
  have hlast : lastIndex? (fun unit => unit.names.contains name) table.units = none :=
    Option.map_eq_none_iff.mp hnone
  have hother := eq_false_of_lastIndex?_eq_none hlast entry (List.mem_of_getElem? hentry)
  rw [List.contains_iff_mem.symm, hother]
  exact Bool.false_ne_true

/-- Where names are apart, each of the names of a unit stands for it. -/
theorem NamesApart.find?_eq (hapart : table.NamesApart) (hentry : table.get? unit = some entry)
    (hname : name ∈ entry.names) : table.find? name = some unit := by
  cases hfound : table.find? name with
  | none => exact absurd hname (not_mem_names hfound hentry)
  | some found =>
    obtain ⟨entry', hentry', hname'⟩ := get?_of_find? hfound
    rw [hapart found unit entry' entry hentry' hentry name (List.contains_iff_mem.mp hname') hname]

/-- Names are apart where each of the names of a unit stands for it. -/
theorem namesApart_of_find?
    (hfind : ∀ pair ∈ table.entries, ∀ name ∈ pair.2.names, table.find? name = some pair.1) :
    table.NamesApart := by
  intro unit unit' entry entry' hentry hentry' name hname hname'
  have hfound := hfind (unit, entry) (mem_entries.mpr hentry) name hname
  have hfound' := hfind (unit', entry') (mem_entries.mpr hentry') name hname'
  exact Option.some.inj (hfound.symm.trans hfound')

namespace Anchored

/-- A table stays anchored while its units keep their names, the anchor is left alone, and
currencies are made multiples of no other unit. -/
theorem of_map (hanchored : table.Anchored anchor) (change : UnitId → UnitEntry → UnitEntry)
    (hget : ∀ unit, table'.get? unit = (table.get? unit).map (change unit))
    (hnames : ∀ unit entry, (change unit entry).names = entry.names)
    (hcurrency : ∀ unit entry, (change unit entry).isCurrency = entry.isCurrency)
    (hbase : ∀ unit entry, (change unit entry).base = entry.base ∨
      (change unit entry).base = some anchor)
    (hanchor : change anchor .euro = .euro) : table'.Anchored anchor where
  apart unit unit' entry entry' hentry hentry' name hname hname' := by
    rw [hget] at hentry hentry'
    obtain ⟨before, hbefore, rfl⟩ := Option.map_eq_some_iff.mp hentry
    obtain ⟨before', hbefore', rfl⟩ := Option.map_eq_some_iff.mp hentry'
    rw [hnames] at hname hname'
    exact hanchored.apart unit unit' before before' hbefore hbefore' name hname hname'
  get?_anchor := by rw [hget, hanchored.get?_anchor, Option.map_some, hanchor]
  base_eq unit entry hentry his hne := by
    rw [hget] at hentry
    obtain ⟨before, hbefore, rfl⟩ := Option.map_eq_some_iff.mp hentry
    rw [hcurrency] at his
    rcases hbase unit before with hkept | hset
    · rw [hkept]
      exact hanchored.base_eq unit before hbefore his hne
    · exact hset

/-- A name without a unit is given one that is a multiple of the anchor. -/
theorem named (hanchored : table.Anchored anchor) (row : RateRow) :
    (table.named anchor row).Anchored anchor := by
  unfold UnitTable.named
  split
  · exact hanchored
  · next hnone =>
    have hget := table.get?_add (.ofSpec { name := row.name, base := anchor })
    have hlt : anchor.index < table.units.length :=
      (List.getElem?_eq_some_iff.mp hanchored.get?_anchor).1
    -- A unit of the longer table is an earlier one, or it is the last and has the name of the row.
    have hcases {unit : UnitId} {entry : UnitEntry}
        (hentry : (table.add (.ofSpec { name := row.name, base := anchor })).2.get? unit =
          some entry) :
        table.get? unit = some entry ∧ row.name ∉ entry.names ∨
          unit.index = table.units.length ∧
            entry = .ofSpec { name := row.name, base := anchor } := by
      rw [hget] at hentry
      split at hentry
      · next hlast => exact .inr ⟨hlast, (Option.some.inj hentry).symm⟩
      · exact .inl ⟨hentry, not_mem_names hnone hentry⟩
    refine ⟨?_, ?_, ?_⟩
    · intro unit unit' entry entry' hentry hentry' name hname hname'
      rcases hcases hentry with ⟨hearlier, hnot⟩ | ⟨hlast, rfl⟩ <;>
        rcases hcases hentry' with ⟨hearlier', hnot'⟩ | ⟨hlast', rfl⟩
      · exact hanchored.apart unit unit' entry entry' hearlier hearlier' name hname hname'
      · obtain rfl := List.mem_singleton.mp hname'
        exact absurd hname hnot
      · obtain rfl := List.mem_singleton.mp hname
        exact absurd hname' hnot'
      · obtain ⟨i⟩ := unit
        obtain ⟨j⟩ := unit'
        exact congrArg UnitId.mk (hlast.trans hlast'.symm)
    · rw [hget, if_neg (by omega), hanchored.get?_anchor]
    · intro unit entry hentry his hne
      rcases hcases hentry with ⟨hearlier, -⟩ | ⟨-, rfl⟩
      · exact hanchored.base_eq unit entry hearlier his hne
      · rfl

/-- A rate is written to a multiple of the anchor, never to the anchor. -/
theorem rerate (hanchored : table.Anchored anchor) (row : RateRow) :
    (table.rerate anchor row).Anchored anchor := by
  refine hanchored.of_map _ (fun unit => get?_rerate unit) ?_ ?_ ?_ (if_neg fun h => h.2 rfl)
  · intro unit entry
    split
    · exact entry.names_rerated anchor row.rate
    · rfl
  · intro unit entry
    split
    · unfold UnitEntry.rerated
      split <;> rfl
    · rfl
  · intro unit entry
    split
    · unfold UnitEntry.rerated
      split
      · exact .inr rfl
      · exact .inl rfl
    · exact .inl rfl

/-- Names may be added one after another. -/
theorem allNamed (hanchored : table.Anchored anchor) (rows : List RateRow) :
    (table.allNamed anchor rows).Anchored anchor := by
  induction rows generalizing table with
  | nil => exact hanchored
  | cons row rows ih => exact ih (hanchored.named row)

/-- Rates may be written one after another. -/
theorem allRerated (hanchored : table.Anchored anchor) (rows : List RateRow) :
    (table.allRerated anchor rows).Anchored anchor := by
  induction rows generalizing table with
  | nil => exact hanchored
  | cons row rows ih => exact ih (hanchored.rerate row)

/-- The factor of any other unit than the anchor may be set. -/
theorem setFactor (hanchored : table.Anchored anchor) (hne : unit ≠ anchor) (factor : Float) :
    (table.setFactor unit factor).Anchored anchor := by
  refine hanchored.of_map _ (fun place => table.get?_modify unit place _) ?_ ?_ ?_
    (if_neg hne.symm)
  · intro place entry
    split <;> rfl
  · intro place entry
    split <;> rfl
  · intro place entry
    split <;> exact .inl rfl

/-- Factors of other units may be set one after another. -/
theorem foldl_setFactor (hanchored : table.Anchored anchor) (factors : List (UnitId × Float))
    (hne : ∀ pair ∈ factors, pair.1 ≠ anchor) :
    (factors.foldl (fun table (unit, factor) => table.setFactor unit factor) table).Anchored
      anchor := by
  induction factors generalizing table with
  | nil => exact hanchored
  | cons pair factors ih =>
    have hset := hanchored.setFactor (hne pair List.mem_cons_self) pair.2
    exact ih hset fun later hlater => hne later (List.mem_cons_of_mem pair hlater)

/-- The anchor is its own root, and every other currency leads to it if its factor is finite. -/
theorem toRoot?_eq (hanchored : table.Anchored anchor) (hentry : table.get? unit = some entry)
    (his : entry.isCurrency = true) :
    table.toRoot? unit =
      if unit = anchor then some (anchor, 1.0)
      else if entry.factor.isFinite then some (anchor, 1.0 * entry.factor) else none := by
  have hroot (visits : Nat) (factor : Float) :
      table.rootFrom (visits + 1) anchor factor = some (anchor, factor) := by
    rw [rootFrom, hanchored.get?_anchor]
    rfl
  split
  · next hunit =>
    subst hunit
    exact hroot 15 1.0
  · next hne =>
    rw [toRoot?, maxChain, rootFrom, hentry]
    dsimp only
    rw [hanchored.base_eq unit entry hentry his hne]
    dsimp only
    rw [hroot]

/-- A currency cannot be converted just when its own factor is not finite. -/
theorem toRoot?_eq_none_iff (hanchored : table.Anchored anchor)
    (hentry : table.get? unit = some entry) (his : entry.isCurrency = true) :
    table.toRoot? unit = none ↔ entry.factor.isFinite = false := by
  rw [hanchored.toRoot?_eq hentry his]
  split
  · next hunit =>
    subst hunit
    obtain rfl := Option.some.inj (hanchored.get?_anchor.symm.trans hentry)
    have hfinite : UnitEntry.euro.factor.isFinite = true := by decide
    rw [hfinite]
    simp
  · split <;> simp [*]

end Anchored

end UnitTable

/-! ## Engines and sessions -/

namespace StandardEngine

variable {engine : StandardEngine} {anchor : UnitId}

/-- The values of rates are listed with the units that they belong to. -/
theorem fst_evaluateRates (engine : StandardEngine) (clock : Clock) (ticks : Nat)
    (rated : List (UnitId × UnitEntry)) :
    (engine.evaluateRates clock ticks rated).1.map Prod.fst = rated.map Prod.fst := by
  induction rated generalizing ticks with
  | nil => rfl
  | cons first others ih => exact congrArg (first.1 :: ·) (ih _)

/-- The anchor has no rate. -/
theorem ne_anchor_of_mem_rated (hanchored : engine.units.Anchored anchor)
    {pair : UnitId × UnitEntry} (hpair : pair ∈ engine.rated) : pair.1 ≠ anchor := by
  obtain ⟨hmem, hrated⟩ := List.mem_filter.mp hpair
  obtain ⟨unit, entry⟩ := pair
  rintro rfl
  obtain rfl := Option.some.inj (hanchored.get?_anchor.symm.trans (UnitTable.mem_entries.mp hmem))
  cases hrated

/-- A reload keeps the table anchored. -/
theorem anchored_reloadCurrencies (hanchored : engine.units.Anchored anchor) (clock : Clock) :
    (engine.reloadCurrencies clock).units.Anchored anchor := by
  refine hanchored.foldl_setFactor _ fun pair hpair => ?_
  have hkey : pair.1 ∈ engine.rated.map Prod.fst := by
    rw [← fst_evaluateRates engine clock 0]
    exact List.mem_map_of_mem hpair
  obtain ⟨rated, hrated, heq⟩ := List.mem_map.mp hkey
  rw [← heq]
  exact ne_anchor_of_mem_rated hanchored hrated

/-- The table of an engine is anchored at its anchor currency. -/
def IsAnchored (engine : StandardEngine) (anchor : UnitId) : Prop :=
  engine.anchor = some anchor ∧ engine.units.Anchored anchor

/-- A batch of rates keeps an engine anchored, whatever its rows and its base are. -/
theorem IsAnchored.updateRates (hengine : engine.IsAnchored anchor) (clock : Clock)
    (rows : List RateRow) (baseName : String) (warnOnStale : Bool) :
    (updateRates engine clock rows baseName warnOnStale).2.IsAnchored anchor := by
  obtain ⟨hanchor, hunits⟩ := hengine
  cases hbase : acceptedBase? engine baseName with
  | none =>
    rw [Reckoner.updateRates, hbase]
    exact ⟨hanchor, hunits⟩
  | some base =>
    obtain ⟨hfound, hanchor'⟩ := acceptedBase?_eq_some_iff.mp hbase
    obtain rfl := Option.some.inj (hanchor.symm.trans hanchor')
    have hrows := applyRows_eq (UnitTable.index_lt_of_find? hfound) rows
    have happlied : (engine.applied anchor rows warnOnStale).IsAnchored anchor := by
      constructor
      · show (applyRows anchor engine rows).2.anchor = some anchor
        rw [hrows]
        exact hanchor
      · show (applyRows anchor engine rows).2.units.Anchored anchor
        rw [hrows]
        exact (hunits.allNamed rows).allRerated rows
    rw [updateRates_eq hbase]
    exact ⟨happlied.1, anchored_reloadCurrencies happlied.2 clock⟩

/-- The names of the anchor stand for it, so that a batch which is based on one of them is
accepted. -/
theorem IsAnchored.accepts (hengine : engine.IsAnchored anchor) {name : String}
    (hname : name ∈ UnitEntry.euro.names) :
    engine.units.find? name = some anchor ∧ ∀ clock rows warnOnStale,
      (Reckoner.updateRates engine clock rows name warnOnStale).1.baseAccepted = true := by
  have hfound : engine.units.find? name = some anchor :=
    hengine.2.apart.find?_eq hengine.2.get?_anchor hname
  refine ⟨hfound, fun clock rows warnOnStale => ?_⟩
  rw [Reckoner.updateRates, acceptedBase?_eq_some_iff.mpr ⟨hfound, hengine.1⟩]
  rfl

/-- The standard definitions are anchored at the euro. -/
theorem isAnchored_withDefinitions : withDefinitions.IsAnchored ⟨4⟩ := by
  refine ⟨rfl, UnitTable.namesApart_of_find? (by decide +kernel), rfl, ?_⟩
  have hbase : ∀ pair ∈ withDefinitions.units.entries, pair.2.isCurrency = true →
      pair.1 ≠ ⟨4⟩ → pair.2.base = some ⟨4⟩ := by
    decide +kernel
  exact fun unit entry hentry => hbase (unit, entry) (UnitTable.mem_entries.mpr hentry)

end StandardEngine

/-- What a session can be asked for. -/
inductive Request where
  | call (c : Call)
  | rates (clock : Clock) (rows : List RateRow) (baseName : String) (warnOnStale : Bool)
  | setOption (command : String)

namespace Session

/-- The session after a request. -/
def serve (session : Session StandardEngine) : Request → Session StandardEngine
  | .call c => (session.call c).2
  | .rates clock rows baseName warnOnStale =>
      (session.updateRates clock rows baseName warnOnStale).2
  | .setOption command => (session.setOption command).2

/-- The session after some requests, one after another. -/
def afterRequests (session : Session StandardEngine) (requests : List Request) :
    Session StandardEngine :=
  requests.foldl serve session

/-- Every request keeps the engine anchored. -/
theorem isAnchored_serve {session : Session StandardEngine} {anchor : UnitId}
    (hengine : session.engine.IsAnchored anchor) (request : Request) :
    (session.serve request).engine.IsAnchored anchor := by
  cases request with
  | call c =>
    obtain ⟨messages, hcall⟩ := sameDefinitions_call session c
    rw [serve, hcall]
    exact hengine
  | rates clock rows baseName warnOnStale =>
    exact hengine.updateRates clock rows baseName warnOnStale
  | setOption command =>
    rw [serve, setOption]
    split <;> exact hengine

/-- Any sequence of requests keeps the engine anchored. -/
theorem isAnchored_afterRequests {session : Session StandardEngine} {anchor : UnitId}
    (hengine : session.engine.IsAnchored anchor) (requests : List Request) :
    (session.afterRequests requests).engine.IsAnchored anchor := by
  induction requests generalizing session with
  | nil => exact hengine
  | cons request requests ih => exact ih (isAnchored_serve hengine request)

/-- Whatever a session with the standard definitions was asked for, no name belongs to two units,
the anchor is the euro, a root worth one of itself, and every other currency is a direct multiple of
it. All names of the anchor still stand for it, so that batches based on them are accepted, and a
currency cannot be converted just when its own factor is not finite. -/
theorem afterRequests_anchored (settings : Settings) (plot : PlotSlot) (requests : List Request) :
    let engine :=
      (afterRequests { engine := StandardEngine.withDefinitions, settings, plot } requests).engine
    ∃ anchor, StandardEngine.withDefinitions.anchor = some anchor ∧
      engine.anchor = some anchor ∧ engine.units.Anchored anchor ∧
      (∀ name ∈ ["EUR", "euro", "€"], engine.units.find? name = some anchor ∧
        ∀ clock rows warnOnStale,
          (Reckoner.updateRates engine clock rows name warnOnStale).1.baseAccepted = true) ∧
      ∀ unit entry, engine.units.get? unit = some entry → entry.isCurrency = true →
        (engine.units.toRoot? unit = none ↔ entry.factor.isFinite = false) := by
  intro engine
  have hengine : engine.IsAnchored ⟨4⟩ :=
    isAnchored_afterRequests StandardEngine.isAnchored_withDefinitions requests
  exact ⟨⟨4⟩, rfl, hengine.1, hengine.2, fun name hname => hengine.accepts hname,
    fun unit entry hentry his => hengine.2.toRoot?_eq_none_iff hentry his⟩

end Session

end Reckoner
