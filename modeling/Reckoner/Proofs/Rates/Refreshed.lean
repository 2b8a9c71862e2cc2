import Reckoner.Proofs.Binary64.Arithmetic
import Reckoner.Proofs.Expr.EchoReading
import Reckoner.Proofs.Rates.Stored

/-!
# What a refreshed currency is worth

A batch may name a currency in several rows, name one that is there already and give rates that
refer to others. This file follows a name from the last of its rows to the answer: the row is
written to the unit of the name, the rate is evaluated against the table before any result is
stored, and the name then stands for that value in the anchor. If the rate has no value, the name
has none either, and a message says so.
-/

namespace Reckoner

open Text Token

/-! ## Rows that were applied -/

namespace UnitTable

variable {table table' : UnitTable} {base anchor unit : UnitId} {entry : UnitEntry} {name : String}

/-- Adding a unit leaves the others where they are. -/
theorem get?_named (hentry : table.get? unit = some entry) (row : RateRow) :
    (table.named base row).get? unit = some entry := by
  unfold named
  split
  · exact hentry
  · have hlt : unit.index < table.units.length := (List.getElem?_eq_some_iff.mp hentry).1
    rw [get?_add, if_neg (by omega), hentry]

/-- A name stands for a currency with a rate, other than the base. -/
def RatesName (table : UnitTable) (base : UnitId) (name : String) : Prop :=
  ∃ unit entry, table.find? name = some unit ∧ unit ≠ base ∧ table.get? unit = some entry ∧
    StandardEngine.isRated entry = true

/-- A name keeps standing for its currency when a unit is added. -/
theorem RatesName.named (hname : table.RatesName base name) (row : RateRow) :
    (table.named base row).RatesName base name := by
  obtain ⟨unit, entry, hfound, hne, hentry, hrated⟩ := hname
  exact ⟨unit, entry, find?_named hfound, hne, get?_named hentry row, hrated⟩

/-- A name keeps standing for its currency when a rate is written. -/
theorem RatesName.rerate (hname : table.RatesName base name) (row : RateRow) :
    (table.rerate base row).RatesName base name := by
  obtain ⟨unit, entry, hfound, hne, hentry, hrated⟩ := hname
  refine ⟨unit, _, (find?_rerate name).trans hfound, hne,
    by rw [get?_rerate, hentry, Option.map_some], ?_⟩
  split
  · rwa [UnitEntry.isRated_rerated]
  · exact hrated

end UnitTable

section rows

variable {base : UnitId} {engine : StandardEngine} {row : RateRow}

/-- The name of a row that created or updated something stands for a currency with a rate. -/
theorem ratesName_applyRow (hbase : base.index < engine.units.units.length)
    (hdone : (applyRow base engine row).1 = .created ∨ (applyRow base engine row).1 = .updated) :
    (applyRow base engine row).2.units.RatesName base row.name := by
  rw [applyRow_eq hbase]
  refine UnitTable.RatesName.rerate ?_ row
  have hresolve : Engine.resolveUnit engine row.name = engine.units.find? row.name := rfl
  rw [applyRow, hresolve] at hdone
  cases hfound : engine.units.find? row.name with
  | none =>
    have hadded : engine.units.named base row =
        (engine.units.add (.ofSpec { name := row.name, base })).2 := by
      rw [UnitTable.named, hfound]
    refine ⟨⟨engine.units.units.length⟩, .ofSpec { name := row.name, base }, ?_, ?_, ?_, rfl⟩
    · rw [hadded, UnitTable.find?_add, if_pos (by simp [UnitEntry.ofSpec])]
    · rintro rfl
      exact Nat.lt_irrefl _ hbase
    · rw [hadded, UnitTable.get?_add, if_pos rfl]
  | some unit =>
    rw [hfound] at hdone
    dsimp only at hdone
    obtain ⟨entry, hentry, -⟩ := UnitTable.get?_of_find? hfound
    rw [UnitTable.named_of_find? hfound]
    split at hdone
    · simp at hdone
    · next hne =>
      refine ⟨unit, entry, hfound, hne, hentry, ?_⟩
      split at hdone
      · by_contra hrated
        have hrefused : Engine.editCurrency engine unit (row.edits base) = none := by
          show StandardEngine.editCurrency engine unit (row.edits base) = none
          rw [StandardEngine.editCurrency, hentry]
          exact if_neg hrated
        rw [applyEdits, hrefused] at hdone
        simp at hdone
      · simp at hdone

/-- A row takes no unit away. -/
theorem index_lt_applyRow (hbase : base.index < engine.units.units.length) (row : RateRow) :
    base.index < (applyRow base engine row).2.units.units.length := by
  rw [applyRow_eq hbase, UnitTable.length_rerate, UnitTable.named]
  split
  · exact hbase
  · simp only [UnitTable.add, List.length_append, List.length_singleton]
    omega

/-- A name keeps standing for its currency while rows are applied. -/
theorem ratesName_applyRows (hbase : base.index < engine.units.units.length) {name : String}
    (hname : engine.units.RatesName base name) (rows : List RateRow) :
    (applyRows base engine rows).2.units.RatesName base name := by
  induction rows generalizing engine with
  | nil => exact hname
  | cons first rows ih =>
    have hnext : (applyRow base engine first).2.units.RatesName base name := by
      rw [applyRow_eq hbase]
      exact (hname.named first).rerate first
    exact ih (index_lt_applyRow hbase first) hnext

/-- The names of all rows that created or updated something stand for currencies with a rate once
the last row is applied. -/
theorem ratesName_of_mem_zip (hbase : base.index < engine.units.units.length)
    {rows : List RateRow} {outcome : RowOutcome}
    (hmem : (row, outcome) ∈ rows.zip (applyRows base engine rows).1)
    (hdone : outcome = .created ∨ outcome = .updated) :
    (applyRows base engine rows).2.units.RatesName base row.name := by
  induction rows generalizing engine with
  | nil => cases hmem
  | cons first rows ih =>
    have hnext := index_lt_applyRow hbase first
    rcases List.mem_cons.mp hmem with heq | hlater
    · obtain ⟨rfl, rfl⟩ := Prod.mk.inj heq
      exact ratesName_applyRows hnext (ratesName_applyRow hbase hdone) rows
    · exact ih hnext hlater

/-- What a report lists as created or updated are the names of such rows. -/
theorem exists_mem_zip_of_mem_report {rows : List RateRow} {outcomes : List RowOutcome}
    {name : String}
    (hname : name ∈ (RateReport.ofOutcomes rows outcomes).created ∨
      name ∈ (RateReport.ofOutcomes rows outcomes).updated) :
    ∃ row outcome, (row, outcome) ∈ rows.zip outcomes ∧
      (outcome = .created ∨ outcome = .updated) ∧ row.name = name := by
  have hlisted {wanted : RowOutcome} (hname : name ∈ ((rows.zip outcomes).filter
      fun pair => pair.2 == wanted).map fun pair => pair.1.name) :
      ∃ row, (row, wanted) ∈ rows.zip outcomes ∧ row.name = name := by
    obtain ⟨⟨row, outcome⟩, hmem, rfl⟩ := List.mem_map.mp hname
    obtain ⟨hzip, hwanted⟩ := List.mem_filter.mp hmem
    obtain rfl := beq_iff_eq.mp hwanted
    exact ⟨row, hzip, rfl⟩
  rcases hname with hcreated | hupdated
  · obtain ⟨row, hzip, hrow⟩ := hlisted hcreated
    exact ⟨row, .created, hzip, .inl rfl, hrow⟩
  · obtain ⟨row, hzip, hrow⟩ := hlisted hupdated
    exact ⟨row, .updated, hzip, .inr rfl, hrow⟩

end rows

/-! ## Engines that come of the standard definitions -/

namespace UnitTable

variable {table table' : UnitTable} {anchor unit : UnitId} {entry : UnitEntry}

/-- Every currency but the anchor goes by a single name. -/
def SingleNamed (table : UnitTable) (anchor : UnitId) : Prop :=
  ∀ unit entry, table.get? unit = some entry → entry.isCurrency = true → unit ≠ anchor →
    ∃ name, entry.names = [name]

namespace SingleNamed

/-- Currencies go by single names while units keep theirs. -/
theorem of_map (htable : table.SingleNamed anchor) (change : UnitId → UnitEntry → UnitEntry)
    (hget : ∀ unit, table'.get? unit = (table.get? unit).map (change unit))
    (hnames : ∀ unit entry, (change unit entry).names = entry.names)
    (hcurrency : ∀ unit entry, (change unit entry).isCurrency = entry.isCurrency) :
    table'.SingleNamed anchor := by
  intro unit entry hentry his hne
  rw [hget] at hentry
  obtain ⟨before, hbefore, rfl⟩ := Option.map_eq_some_iff.mp hentry
  rw [hcurrency] at his
  rw [hnames]
  exact htable unit before hbefore his hne

/-- The unit that is added for a row goes by the name of the row. -/
theorem named (htable : table.SingleNamed anchor) (row : RateRow) :
    (table.named anchor row).SingleNamed anchor := by
  unfold UnitTable.named
  split
  · exact htable
  · intro unit entry hentry his hne
    rw [get?_add] at hentry
    split at hentry
    · obtain rfl := Option.some.inj hentry
      exact ⟨row.name, rfl⟩
    · exact htable unit entry hentry his hne

/-- A rate that is written leaves the names alone. -/
theorem rerate (htable : table.SingleNamed anchor) (row : RateRow) :
    (table.rerate anchor row).SingleNamed anchor := by
  refine htable.of_map _ (fun unit => get?_rerate unit) ?_ ?_
  · intro unit entry
    split
    · exact entry.names_rerated anchor row.rate
    · rfl
  · intro unit entry
    split
    · unfold UnitEntry.rerated
      split <;> rfl
    · rfl

/-- Names may be added one after another. -/
theorem allNamed (htable : table.SingleNamed anchor) (rows : List RateRow) :
    (table.allNamed anchor rows).SingleNamed anchor := by
  induction rows generalizing table with
  | nil => exact htable
  | cons row rows ih => exact ih (htable.named row)

/-- Rates may be written one after another. -/
theorem allRerated (htable : table.SingleNamed anchor) (rows : List RateRow) :
    (table.allRerated anchor rows).SingleNamed anchor := by
  induction rows generalizing table with
  | nil => exact htable
  | cons row rows ih => exact ih (htable.rerate row)

end SingleNamed

end UnitTable

namespace StandardEngine

variable {engine : StandardEngine} {anchor unit : UnitId}

/-- An engine whose table is anchored, whose currencies go by single names but for the anchor, and
whose variables are the standard ones. -/
structure IsStandard (engine : StandardEngine) (anchor : UnitId) : Prop where
  isAnchored : engine.IsAnchored anchor
  singleNamed : engine.units.SingleNamed anchor
  constants_eq : engine.constants = withDefinitions.constants

/-- The rows of a batch change the table and nothing else that evaluations read. -/
theorem applied_eq (hbase : anchor.index < engine.units.units.length) (rows : List RateRow)
    (warnOnStale : Bool) :
    engine.applied anchor rows warnOnStale =
      { engine with
        units := (engine.units.allNamed anchor rows).allRerated anchor rows
        staleWarning := warnOnStale } := by
  show { (applyRows anchor engine rows).2 with staleWarning := warnOnStale } = _
  rw [applyRows_eq hbase]

namespace IsStandard

/-- The anchor has a place in the table. -/
theorem index_lt (hengine : engine.IsStandard anchor) :
    anchor.index < engine.units.units.length :=
  (List.getElem?_eq_some_iff.mp hengine.isAnchored.2.get?_anchor).1

/-- The rows of a batch keep an engine standard. -/
theorem applied (hengine : engine.IsStandard anchor) (rows : List RateRow) (warnOnStale : Bool) :
    (engine.applied anchor rows warnOnStale).IsStandard anchor := by
  rw [applied_eq hengine.index_lt]
  exact ⟨⟨hengine.isAnchored.1, (hengine.isAnchored.2.allNamed rows).allRerated rows⟩,
    (hengine.singleNamed.allNamed rows).allRerated rows, hengine.constants_eq⟩

/-- A reload keeps an engine standard. -/
theorem reloadCurrencies (hengine : engine.IsStandard anchor) (clock : Clock) :
    (engine.reloadCurrencies clock).IsStandard anchor := by
  refine ⟨⟨hengine.isAnchored.1, anchored_reloadCurrencies hengine.isAnchored.2 clock⟩, ?_,
    hengine.constants_eq⟩
  refine hengine.singleNamed.of_map _ (engine.get?_reloadCurrencies clock) ?_ ?_
  · intro unit entry
    split <;> rfl
  · intro unit entry
    split <;> rfl

/-- A batch of rates keeps an engine standard. -/
theorem updateRates (hengine : engine.IsStandard anchor) (clock : Clock) (rows : List RateRow)
    (baseName : String) (warnOnStale : Bool) :
    (updateRates engine clock rows baseName warnOnStale).2.IsStandard anchor := by
  cases hbase : acceptedBase? engine baseName with
  | none =>
    rw [Reckoner.updateRates, hbase]
    exact hengine
  | some base =>
    obtain ⟨-, hanchor⟩ := acceptedBase?_eq_some_iff.mp hbase
    obtain rfl := Option.some.inj (hengine.isAnchored.1.symm.trans hanchor)
    rw [updateRates_eq hbase]
    exact (hengine.applied rows warnOnStale).reloadCurrencies clock

end IsStandard

/-- The standard definitions are standard. -/
theorem isStandard_withDefinitions : withDefinitions.IsStandard ⟨4⟩ := by
  refine ⟨isAnchored_withDefinitions, ?_, rfl⟩
  have hnone : ∀ pair ∈ withDefinitions.units.entries, pair.2.isCurrency = true →
      pair.1 = ⟨4⟩ := by
    decide +kernel
  intro unit entry hentry his hne
  exact absurd (hnone (unit, entry) (UnitTable.mem_entries.mpr hentry) his) hne

end StandardEngine

namespace Session

/-- Every request keeps the engine standard. -/
theorem isStandard_serve {session : Session StandardEngine} {anchor : UnitId}
    (hengine : session.engine.IsStandard anchor) (request : Request) :
    (session.serve request).engine.IsStandard anchor := by
  cases request with
  | call c =>
    obtain ⟨messages, hcall⟩ := sameDefinitions_call session c
    rw [serve, hcall]
    exact ⟨hengine.isAnchored, hengine.singleNamed, hengine.constants_eq⟩
  | rates clock rows baseName warnOnStale =>
    exact hengine.updateRates clock rows baseName warnOnStale
  | setOption command =>
    rw [serve, setOption]
    split <;> exact hengine

/-- Any sequence of requests keeps the engine standard. -/
theorem isStandard_afterRequests {session : Session StandardEngine} {anchor : UnitId}
    (hengine : session.engine.IsStandard anchor) (requests : List Request) :
    (session.afterRequests requests).engine.IsStandard anchor := by
  induction requests generalizing session with
  | nil => exact hengine
  | cons request requests ih => exact ih (isStandard_serve hengine request)

end Session

/-! ## The last row of a name -/

/-- A currency that goes by the name of a row alone and holds what the row says. -/
structure UnitEntry.Holds (entry : UnitEntry) (row : RateRow) : Prop where
  isRated : StandardEngine.isRated entry = true
  names_eq : entry.names = [row.name]
  expression_eq : entry.expression = row.rate
  approximate_eq : entry.approximate = true
  precision_eq : entry.precision = some currencyPrecision

/-- The last of the rows with a name. -/
def lastRowNamed? (rows : List RateRow) (name : String) : Option RateRow :=
  (rows.filter fun row => row.name == name).getLast?

/-- The last of the rows with a name has that name. -/
theorem name_of_lastRowNamed? {rows : List RateRow} {name : String} {row : RateRow}
    (hlast : lastRowNamed? rows name = some row) : row.name = name :=
  beq_iff_eq.mp (List.mem_filter.mp (List.mem_of_getLast? hlast)).2

/-- Where there is a row with a name, there is a last one. -/
theorem exists_lastRowNamed? {rows : List RateRow} {row : RateRow} (hrow : row ∈ rows) :
    ∃ last, lastRowNamed? rows row.name = some last := by
  have hnamed : row ∈ rows.filter fun other => other.name == row.name :=
    List.mem_filter.mpr ⟨hrow, beq_self_eq_true _⟩
  cases hlast : lastRowNamed? rows row.name with
  | none =>
    rw [List.getLast?_eq_none_iff.mp hlast] at hnamed
    cases hnamed
  | some last => exact ⟨last, rfl⟩

/-- Once all rows of a batch are applied, a unit with a rate and a single name holds what the last
row with that name says. -/
theorem holds_of_lastRowNamed? {table : UnitTable} {base unit : UnitId} {rows : List RateRow}
    {name : String} {entry : UnitEntry} {row : RateRow}
    (hlast : lastRowNamed? rows name = some row)
    (hfound : ((table.allNamed base rows).allRerated base rows).find? name = some unit)
    (hne : unit ≠ base)
    (hentry : ((table.allNamed base rows).allRerated base rows).get? unit = some entry)
    (hrated : StandardEngine.isRated entry = true) (hsingle : ∃ label, entry.names = [label]) :
    entry.Holds row := by
  rw [find?_allRerated] at hfound
  rw [get?_allRerated] at hentry
  obtain ⟨before, hbefore, rfl⟩ := Option.map_eq_some_iff.mp hentry
  have hkept (row? : Option RateRow) : (before.reratedBy base row?).names = before.names ∧
      StandardEngine.isRated (before.reratedBy base row?) = StandardEngine.isRated before := by
    cases row? with
    | none => exact ⟨rfl, rfl⟩
    | some row => exact ⟨before.names_rerated base row.rate, before.isRated_rerated base row.rate⟩
  rw [(hkept _).1] at hsingle
  rw [(hkept _).2] at hrated
  obtain ⟨label, hlabel⟩ := hsingle
  -- Whatever name leads to the unit is the only one that it has.
  have honly {other : String} (hother : (table.allNamed base rows).find? other = some unit) :
      other = label := by
    obtain ⟨entry, hentry', hcontains⟩ := UnitTable.get?_of_find? hother
    obtain rfl := Option.some.inj (hbefore.symm.trans hentry')
    rw [hlabel] at hcontains
    exact List.mem_singleton.mp (List.contains_iff_mem.mp hcontains)
  obtain rfl := honly hfound
  have hwrites : (rows.filter fun row =>
      decide ((table.allNamed base rows).find? row.name = some unit ∧ unit ≠ base)) =
        rows.filter fun row => row.name == name := by
    refine List.filter_congr fun row _ => ?_
    rw [Bool.eq_iff_iff, decide_eq_true_iff, beq_iff_eq]
    constructor
    · exact fun h => honly h.1
    · exact fun h => ⟨h ▸ hfound, hne⟩
  have hwritten : (table.allNamed base rows).lastRow? base rows unit = some row := by
    rw [UnitTable.lastRow?, hwrites]
    exact hlast
  have hnames : before.names = [row.name] := by rw [hlabel, name_of_lastRowNamed? hlast]
  have hkeepsRate := before.isRated_rerated base row.rate
  rw [hwritten, UnitEntry.reratedBy]
  refine ⟨hkeepsRate.trans hrated, (before.names_rerated base row.rate).trans hnames, ?_, ?_, ?_⟩
  all_goals rw [UnitEntry.rerated, if_pos hrated]

/-! ## Evaluating a name -/

/-- A word is read as a name. -/
theorem parse_word {label : String} (hlabel : IsWord label.toList) :
    Expr.parse label = .ok (.name label) := by
  have hecho : (Expr.name label).echo false = label := String.ofList_toList
  have hread := Expr.parse_echo (.name ⟨hlabel, rfl⟩)
  rw [hecho] at hread
  exact hread

/-- Before the deadline, a name that stands for a unit is evaluated to one of that unit. -/
theorem Scope.run_eval_name {scope : Scope} {label : String} {unit : UnitId} {a : Run}
    (hlabel : label ≠ "x") (hconstant : scope.constants.find? label = none)
    (hunit : scope.units.find? label = some unit)
    (hclock : scope.clock.reading a.ticks < scope.deadline) :
    (scope.eval (.name label)).run a =
      (scope.unitQuantity unit label).run { a with ticks := a.ticks + 1 } := by
  have hfree : (label == "x") = false := beq_eq_false_iff_ne.mpr hlabel
  have hlookUp : scope.lookUp label = scope.unitQuantity unit label := by
    rw [lookUp, hconstant, hunit]
  rw [eval, Evaluation.run_bind, run_checkDeadline, if_neg (by omega), identifier_eq, hfree,
    ← hlookUp]
  rfl

namespace StandardEngine

variable {engine : StandardEngine} {anchor unit : UnitId} {entry : UnitEntry} {label : String}
  {settings : Settings} {clock : Clock} {budget : Nat} {start : Run}

/-- A currency other than the anchor is evaluated, in time, to its factor in the anchor, or to
nothing if its factor is not finite. -/
theorem evaluate_currency (hengine : engine.IsStandard anchor)
    (hconstant : engine.constants.find? label = none)
    (hunit : engine.units.find? label = some unit) (hne : unit ≠ anchor)
    (hentry : engine.units.get? unit = some entry) (his : entry.isCurrency = true)
    (hclock : clock.reading (start.ticks + 1) < clock.reading start.ticks + budget * millisecond) :
    engine.evaluate settings clock budget start (.name label) =
      if entry.factor.isFinite then
        (.ok {
            value := entry.factor
            dimension := some anchor
            display := some unit
            approximate := entry.approximate
            precision := entry.precision },
          { start with usedCurrency := true, ticks := start.ticks + 2 })
      else
        (.ok .undefined,
          { start with
            messages := ⟨.error, "No usable conversion for " ++ label ++ "."⟩ :: start.messages
            ticks := start.ticks + 2 }) := by
  have hlabel : label ≠ "x" := by
    rintro rfl
    rw [hengine.constants_eq] at hconstant
    exact absurd hconstant (by decide +kernel)
  have hroot := hengine.isAnchored.2.toRoot?_eq hentry his
  rw [if_neg hne] at hroot
  let scope := engine.scope settings clock (clock.reading start.ticks + budget * millisecond)
  have hrun : (scope.eval (.name label)).run { start with ticks := start.ticks + 1 } =
      (scope.unitQuantity unit label).run { start with ticks := start.ticks + 2 } :=
    Scope.run_eval_name hlabel hconstant hunit hclock
  refine Eq.trans hrun ?_
  have hentry' : scope.units.get? unit = some entry := hentry
  unfold Scope.unitQuantity
  rw [hentry']
  by_cases hfinite : entry.factor.isFinite
  · have hother : (anchor != unit) = true := bne_iff_ne.mpr hne.symm
    have hroot' : scope.units.toRoot? unit = some (anchor, entry.factor) := by
      rw [if_pos hfinite, Binary64.one_mul_of_isFinite hfinite] at hroot
      exact hroot
    rw [hroot', if_pos hfinite]
    dsimp only
    rw [Evaluation.run_bind, Evaluation.run_modify, his, hother, Bool.true_and, Bool.or_true]
    rfl
  · have hroot' : scope.units.toRoot? unit = none := by
      rw [if_neg hfinite] at hroot
      exact hroot
    rw [hroot', if_neg hfinite]
    rfl

/-- After the rows of a batch, a name that one of them created or updated stands for a currency
other than the anchor, which holds what the last row with the name says. -/
theorem IsStandard.exists_holds (hengine : engine.IsStandard anchor) {rows : List RateRow}
    (warnOnStale : Bool)
    (happlied : label ∈ (RateReport.ofOutcomes rows (applyRows anchor engine rows).1).created ∨
      label ∈ (RateReport.ofOutcomes rows (applyRows anchor engine rows).1).updated) :
    ∃ unit entry row, (engine.applied anchor rows warnOnStale).units.find? label = some unit ∧
      unit ≠ anchor ∧ (engine.applied anchor rows warnOnStale).units.get? unit = some entry ∧
      lastRowNamed? rows label = some row ∧ entry.Holds row := by
  obtain ⟨row, outcome, hzip, hdone, rfl⟩ := exists_mem_zip_of_mem_report happlied
  obtain ⟨unit, entry, hfound, hne, hentry, hrated⟩ :
      (engine.applied anchor rows warnOnStale).units.RatesName anchor row.name :=
    ratesName_of_mem_zip hengine.index_lt hzip hdone
  have hsingle := (hengine.applied rows warnOnStale).singleNamed unit entry hentry
    (Bool.and_eq_true_iff.mp hrated).1 hne
  obtain ⟨last, hlast⟩ := exists_lastRowNamed? (List.of_mem_zip hzip).1
  have hunits : (engine.applied anchor rows warnOnStale).units =
      (engine.units.allNamed anchor rows).allRerated anchor rows := by
    rw [applied_eq hengine.index_lt]
  refine ⟨unit, entry, last, hfound, hne, hentry, hlast, ?_⟩
  rw [hunits] at hfound hentry
  exact holds_of_lastRowNamed? hlast hfound hne hentry hrated hsingle

/-- After a reload, a name of a currency that holds some row is evaluated to the value of the rate
of that row, or to nothing if the rate has no value. -/
theorem IsStandard.evaluate_reloaded (hengine : engine.IsStandard anchor) {row : RateRow}
    (clock : Clock) (hconstant : engine.constants.find? label = none)
    (hunit : engine.units.find? label = some unit) (hne : unit ≠ anchor)
    (hentry : engine.units.get? unit = some entry) (hholds : entry.Holds row) {clock' : Clock}
    (hclock : clock'.reading (start.ticks + 1) <
      clock'.reading start.ticks + budget * millisecond) :
    let answer :=
      (engine.reloadCurrencies clock).evaluate settings clock' budget start (.name label)
    (∀ value, engine.HasRate clock (engine.turn clock unit) row.rate value →
      answer = (.ok {
          value
          dimension := some anchor
          display := some unit
          approximate := true
          precision := some currencyPrecision },
        { start with usedCurrency := true, ticks := start.ticks + 2 })) ∧
    ((∀ value, ¬ engine.HasRate clock (engine.turn clock unit) row.rate value) →
      answer = (.ok .undefined,
        { start with
          messages := ⟨.error, "No usable conversion for " ++ label ++ "."⟩ :: start.messages
          ticks := start.ticks + 2 })) := by
  intro answer
  let factor := (engine.evaluateRate clock (engine.turn clock unit) row.rate).1
  have hunit' : (engine.reloadCurrencies clock).units.find? label = some unit := by
    rw [← (sameButFactors_reloadCurrencies engine clock).units.find?_eq]
    exact hunit
  have hentry' : (engine.reloadCurrencies clock).units.get? unit = some { entry with factor } := by
    rw [get?_reloadCurrencies, hentry, Option.map_some, if_pos hholds.isRated,
      hholds.expression_eq]
  have hanswer : answer = _ :=
    evaluate_currency (hengine.reloadCurrencies clock) hconstant hunit' hne hentry'
      (Bool.and_eq_true_iff.mp hholds.isRated).1 hclock
  constructor
  · intro value hvalue
    obtain ⟨hfactor, hfinite⟩ := hasRate_iff.mp hvalue
    have hsame : factor = value := hfactor
    rw [hanswer, if_pos (by rw [hsame]; exact hfinite), hholds.approximate_eq,
      hholds.precision_eq, hsame]
  · intro hnone
    have hinfinite : ¬ factor.isFinite = true := fun hfinite =>
      hnone factor (hasRate_iff.mpr ⟨rfl, hfinite⟩)
    rw [hanswer, if_neg hinfinite]

end StandardEngine

/-! ## Refreshed names -/

namespace Session

open StandardEngine

/-- Whatever a session with the standard definitions was asked for before: after a batch of rates, a
word that is no variable and that the batch created or updated is read as a name of which the unit
is shown under that word. If the text of its last row has a value as a rate, against the table as it
was when all rows had been applied, then the name is evaluated to that value in the anchor, as an
approximate amount of the unit. If the text has none, the name is undefined, and it is reported that
the unit cannot be converted. -/
theorem afterRequests_refreshed {settings : Settings} {plot : PlotSlot} {requests : List Request}
    {clock : Clock} {rows : List RateRow} {baseName : String} {warnOnStale : Bool} {label : String}
    {engine refreshed : StandardEngine} {report : RateReport}
    (hengine : engine =
      (afterRequests { engine := withDefinitions, settings, plot } requests).engine)
    (hbatch : Reckoner.updateRates engine clock rows baseName warnOnStale = (report, refreshed))
    (happlied : label ∈ report.created ∨ label ∈ report.updated) (hword : IsWord label.toList)
    (hvariable : engine.constants.find? label = none) :
    ∃ anchor unit row, engine.anchor = some anchor ∧ refreshed.units.find? label = some unit ∧
      (refreshed.units.get? unit).map UnitEntry.displayName = some label ∧
      (rows.filter fun row => row.name == label).getLast? = some row ∧
      Expr.parse label = .ok (.name label) ∧
      ∀ (settings : Settings) (clock' : Clock) (budget : Nat) (start : Run),
        clock'.reading (start.ticks + 1) < clock'.reading start.ticks + budget * millisecond →
        let before := engine.applied anchor rows warnOnStale
        let answer := refreshed.evaluate settings clock' budget start (.name label)
        (∀ value, before.HasRate clock (before.turn clock unit) row.rate value →
          answer = (.ok {
              value
              dimension := some anchor
              display := some unit
              approximate := true
              precision := some (-2) },
            { start with usedCurrency := true, ticks := start.ticks + 2 })) ∧
        ((∀ value, ¬ before.HasRate clock (before.turn clock unit) row.rate value) →
          answer = (.ok .undefined,
            { start with
              messages := ⟨.error, "No usable conversion for " ++ label ++ "."⟩ :: start.messages
              ticks := start.ticks + 2 })) := by
  obtain ⟨anchor, hstandard⟩ : ∃ anchor, engine.IsStandard anchor :=
    ⟨⟨4⟩, hengine ▸ isStandard_afterRequests isStandard_withDefinitions requests⟩
  cases hbase : acceptedBase? engine baseName with
  | none =>
    rw [Reckoner.updateRates, hbase] at hbatch
    obtain ⟨rfl, -⟩ := Prod.mk.inj hbatch
    rcases happlied with hnone | hnone <;> cases hnone
  | some base =>
    obtain ⟨-, hanchor⟩ := acceptedBase?_eq_some_iff.mp hbase
    obtain rfl := Option.some.inj (hstandard.isAnchored.1.symm.trans hanchor)
    have hbefore := hstandard.applied rows warnOnStale
    rw [Reckoner.updateRates, hbase] at hbatch
    obtain ⟨rfl, hrefreshed⟩ := Prod.mk.inj hbatch
    obtain rfl : (engine.applied anchor rows warnOnStale).reloadCurrencies clock = refreshed :=
      hrefreshed
    obtain ⟨unit, entry, row, hunit, hne, hentry, hlast, hholds⟩ :=
      hstandard.exists_holds warnOnStale happlied
    have hconstant : (engine.applied anchor rows warnOnStale).constants.find? label = none := by
      rw [hbefore.constants_eq, ← hstandard.constants_eq]
      exact hvariable
    refine ⟨anchor, unit, row, hstandard.isAnchored.1, ?_, ?_, hlast, parse_word hword, ?_⟩
    · rw [← (sameButFactors_reloadCurrencies _ clock).units.find?_eq]
      exact hunit
    · rw [get?_reloadCurrencies, hentry, Option.map_some, if_pos hholds.isRated, Option.map_some,
        UnitEntry.displayName, hholds.names_eq, name_of_lastRowNamed? hlast]
      rfl
    · intro settings clock' budget start hclock
      exact hbefore.evaluate_reloaded clock hconstant hunit hne hentry hholds hclock

/-- A dollar that was worth two euros is worth ninety cents after a batch in which the second of two
rows says so. -/
theorem afterRequests_refreshed_dollar :
    let engine := (afterRequests { engine := withDefinitions }
      [.rates (.metered 0 1) [⟨"USD", "2"⟩] "EUR" false]).engine
    let batch := Reckoner.updateRates engine (.metered 0 1) [⟨"USD", "0.5"⟩, ⟨"USD", "1.8/2"⟩]
      "EUR" false
    batch.2.evaluate {} (.metered 0 1) 500 {} (.name "USD") =
      (.ok {
          value := 0.9
          dimension := some ⟨4⟩
          display := some ⟨5⟩
          approximate := true
          precision := some (-2) },
        { usedCurrency := true, ticks := 2 }) := by
  intro engine batch
  have hword : IsWord "USD".toList :=
    ⟨⟨by decide, List.all_eq_true.mp rfl⟩, 'U', ['S', 'D'], rfl, by decide⟩
  have happlied : "USD" ∈ batch.1.created ∨ "USD" ∈ batch.1.updated := by decide +kernel
  have hvariable : engine.constants.find? "USD" = none := by decide +kernel
  obtain ⟨anchor, unit, row, hanchor, hunit, -, hlast, -, hanswer⟩ :=
    afterRequests_refreshed rfl (Prod.eta batch).symm happlied hword hvariable
  obtain rfl : (⟨4⟩ : UnitId) = anchor := Option.some.inj hanchor
  have hfound : batch.2.units.find? "USD" = some ⟨5⟩ := by decide +kernel
  obtain rfl := Option.some.inj (hfound.symm.trans hunit)
  have hrow : lastRowNamed? [⟨"USD", "0.5"⟩, ⟨"USD", "1.8/2"⟩] "USD" = some ⟨"USD", "1.8/2"⟩ := by
    decide +kernel
  obtain rfl := Option.some.inj (hrow.symm.trans hlast)
  refine (hanswer {} (.metered 0 1) 500 {} (by decide +kernel)).1 0.9 (hasRate_iff.mpr ?_)
  decide +kernel

end Session

end Reckoner
