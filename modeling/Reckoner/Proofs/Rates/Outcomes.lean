import Reckoner.Proofs.Rates.Refreshed

/-!
# What becomes of rows

A row is ignored if it names the base, skipped if it names a unit that has no rate, and has an
effect otherwise. Which of these it is depends on its name and on the table before the batch, and
not on the rows around it: they can only turn a name that is new into one that is known. Rows
without an effect leave the engine alone, so that a batch does the same without them.
-/

namespace Reckoner

/-- Whether a row with this end changed anything. -/
def RowOutcome.isEffective : RowOutcome → Bool
  | .created | .updated => true
  | .ignored | .skipped => false

/-! ## One row -/

namespace UnitTable

/-- What becomes of a row that is the next one to be applied to a table. -/
def rowOutcome (table : UnitTable) (base : UnitId) (row : RateRow) : RowOutcome :=
  match table.find? row.name with
  | none => .created
  | some unit =>
      if unit = base then .ignored
      else if (table.get? unit).any StandardEngine.isRated then .updated
      else .skipped

variable {table : UnitTable} {base : UnitId} {row : RateRow}

/-- The rows that are ignored are those that name the base. -/
theorem rowOutcome_eq_ignored_iff :
    table.rowOutcome base row = .ignored ↔ table.find? row.name = some base := by
  unfold rowOutcome
  cases table.find? row.name with
  | none => simp
  | some unit =>
    dsimp only
    split
    · next hunit => simp [hunit]
    · next hunit => split <;> simp [hunit]

/-- The rows that are skipped are those that name a unit without a rate, other than the base. -/
theorem rowOutcome_eq_skipped_iff :
    table.rowOutcome base row = .skipped ↔ ∃ unit entry, table.find? row.name = some unit ∧
      unit ≠ base ∧ table.get? unit = some entry ∧ StandardEngine.isRated entry = false := by
  unfold rowOutcome
  cases hfound : table.find? row.name with
  | none => simp
  | some unit =>
    obtain ⟨entry, hentry, -⟩ := get?_of_find? hfound
    dsimp only
    by_cases hunit : unit = base
    · simp [hunit]
    · rw [if_neg hunit, hentry, Option.any_some]
      by_cases hrated : StandardEngine.isRated entry
      · simp [hrated, hentry]
      · simp [hrated, hunit, hentry]

/-- A rate that is written does not matter to what becomes of rows. -/
theorem rowOutcome_rerate (written : RateRow) :
    (table.rerate base written).rowOutcome base row = table.rowOutcome base row := by
  unfold rowOutcome
  rw [find?_rerate]
  cases table.find? row.name with
  | none => rfl
  | some unit =>
    have hrated : ((table.rerate base written).get? unit).any StandardEngine.isRated =
        (table.get? unit).any StandardEngine.isRated := by
      rw [get?_rerate]
      cases table.get? unit with
      | none => rfl
      | some entry =>
        rw [Option.map_some, Option.any_some, Option.any_some]
        split
        · exact entry.isRated_rerated base written.rate
        · rfl
    dsimp only
    rw [hrated]

/-- A unit that is added for a name matters to the rows with that name only. -/
theorem rowOutcome_named (hbase : base.index < table.units.length) (added : RateRow) :
    (table.named base added).rowOutcome base row =
      if table.rowOutcome base row = .created ∧ row.name = added.name then .updated
      else table.rowOutcome base row := by
  cases hadded : table.find? added.name with
  | some unit =>
    rw [named_of_find? hadded, if_neg]
    rintro ⟨hcreated, hname⟩
    rw [rowOutcome, hname, hadded] at hcreated
    dsimp only at hcreated
    split at hcreated
    · cases hcreated
    · split at hcreated <;> cases hcreated
  | none =>
    have hnamed : table.named base added =
        (table.add (.ofSpec { name := added.name, base })).2 := by
      rw [named, hadded]
    by_cases hname : row.name = added.name
    · have hnew : ¬ (⟨table.units.length⟩ : UnitId) = base := by
        rintro rfl
        exact Nat.lt_irrefl _ hbase
      have hcreated : table.rowOutcome base row = .created := by
        rw [rowOutcome, hname, hadded]
      rw [if_pos ⟨hcreated, hname⟩, rowOutcome, hnamed, find?_add, hname,
        if_pos (by simp [UnitEntry.ofSpec])]
      dsimp only
      rw [if_neg hnew, get?_add, if_pos rfl]
      rfl
    · rw [if_neg fun h => hname h.2, hnamed, rowOutcome, find?_add,
        if_neg (by simpa [UnitEntry.ofSpec] using hname), rowOutcome]
      cases hfound : table.find? row.name with
      | none => rfl
      | some unit =>
        have hold : unit.index ≠ table.units.length := Nat.ne_of_lt (index_lt_of_find? hfound)
        dsimp only
        rw [get?_add, if_neg hold]

end UnitTable

section rows

variable {base : UnitId} {engine : StandardEngine}

/-- The edits of a row are done to a unit with a rate, and refused by any other. -/
theorem fst_applyEdits {unit : UnitId} {entry : UnitEntry}
    (hentry : engine.units.get? unit = some entry) (row : RateRow) (done : RowOutcome) :
    (applyEdits engine base unit row done).1 =
      if StandardEngine.isRated entry then done else .skipped := by
  have hedit : Engine.editCurrency engine unit (row.edits base) =
      StandardEngine.editCurrency engine unit (row.edits base) := rfl
  rw [applyEdits, hedit, StandardEngine.editCurrency, hentry]
  dsimp only
  by_cases hrated : StandardEngine.isRated entry
  · rw [if_pos hrated, if_pos hrated]
  · rw [if_neg hrated, if_neg hrated]

/-- What becomes of a row can be seen before it is applied. -/
theorem fst_applyRow (base : UnitId) (engine : StandardEngine) (row : RateRow) :
    (applyRow base engine row).1 = engine.units.rowOutcome base row := by
  have hresolve : Engine.resolveUnit engine row.name = engine.units.find? row.name := rfl
  rw [applyRow, hresolve, UnitTable.rowOutcome]
  cases hfound : engine.units.find? row.name with
  | none =>
    have hadded := engine.units.get?_add (.ofSpec { name := row.name, base })
      ⟨engine.units.units.length⟩
    rw [if_pos rfl] at hadded
    have hnamed : ({ engine with units := (engine.units.add _).2 } : StandardEngine).units.get? _ =
        some _ := hadded
    exact fst_applyEdits hnamed row .created
  | some unit =>
    obtain ⟨entry, hentry, -⟩ := UnitTable.get?_of_find? hfound
    have hcurrency : Engine.isCurrencyUnit engine unit = entry.isCurrency := by
      show (engine.units.get? unit).any UnitEntry.isCurrency = _
      rw [hentry]
      rfl
    dsimp only
    rw [hcurrency, hentry, Option.any_some]
    by_cases hunit : unit = base
    · rw [if_pos hunit, if_pos hunit]
    · rw [if_neg hunit, if_neg hunit]
      by_cases his : entry.isCurrency
      · rw [if_pos his, fst_applyEdits hentry]
      · have hrated : ¬ StandardEngine.isRated entry = true := fun h =>
          his (Bool.and_eq_true_iff.mp h).1
        rw [if_neg his, if_neg hrated]

/-- A row without an effect leaves the engine alone. -/
theorem applyRow_of_not_isEffective (hbase : base.index < engine.units.units.length)
    {row : RateRow} (hnone : (applyRow base engine row).1.isEffective = false) :
    (applyRow base engine row).2 = engine := by
  rw [fst_applyRow] at hnone
  rw [applyRow_eq hbase]
  cases houtcome : engine.units.rowOutcome base row with
  | created | updated =>
    rw [houtcome] at hnone
    cases hnone
  | ignored =>
    have hfound := UnitTable.rowOutcome_eq_ignored_iff.mp houtcome
    rw [UnitTable.named_of_find? hfound, UnitTable.rerate, hfound]
    dsimp only
    rw [if_pos rfl]
  | skipped =>
    obtain ⟨unit, entry, hfound, hunit, hentry, hrated⟩ :=
      UnitTable.rowOutcome_eq_skipped_iff.mp houtcome
    rw [UnitTable.named_of_find? hfound, UnitTable.rerate, hfound]
    dsimp only
    rw [if_neg hunit, modify_rerated_of_unrated hentry (Bool.eq_false_iff.mp hrated)]

/-- A row that was applied matters to what becomes of others only if they have its name and it was
new. -/
theorem rowOutcome_applyRow (hbase : base.index < engine.units.units.length)
    (row other : RateRow) :
    (applyRow base engine row).2.units.rowOutcome base other =
      if engine.units.rowOutcome base other = .created ∧ other.name = row.name then .updated
      else engine.units.rowOutcome base other := by
  rw [applyRow_eq hbase]
  exact (UnitTable.rowOutcome_rerate row).trans (UnitTable.rowOutcome_named hbase row)

/-! ## Rows one after another -/

/-- Every row has an outcome. -/
theorem length_fst_applyRows {σ : Type} [Engine σ] (base : UnitId) (engine : σ)
    (rows : List RateRow) : (applyRows base engine rows).1.length = rows.length := by
  induction rows generalizing engine with
  | nil => rfl
  | cons row rows ih =>
    show (applyRows base (applyRow base engine row).2 rows).1.length + 1 = _
    rw [ih, List.length_cons]

/-- What becomes of a row of a batch is what would become of it as the first one, except that the
unit it creates may be there already. -/
theorem outcome_of_mem_zip (hbase : base.index < engine.units.units.length) {rows : List RateRow}
    {row : RateRow} {outcome : RowOutcome}
    (hmem : (row, outcome) ∈ rows.zip (applyRows base engine rows).1) :
    outcome = engine.units.rowOutcome base row ∨
      engine.units.rowOutcome base row = .created ∧ outcome = .updated := by
  induction rows generalizing engine with
  | nil => cases hmem
  | cons first rows ih =>
    rcases List.mem_cons.mp hmem with heq | hlater
    · obtain ⟨rfl, rfl⟩ := Prod.mk.inj heq
      exact .inl (fst_applyRow base engine row)
    · have hnext := ih (index_lt_applyRow hbase first) hlater
      rw [rowOutcome_applyRow hbase] at hnext
      split at hnext
      · next hfirst =>
        rcases hnext with rfl | ⟨hother, -⟩
        · exact .inr ⟨hfirst.1, rfl⟩
        · cases hother
      · exact hnext

/-- The rows of a batch that have an effect. -/
def effectiveRows (base : UnitId) (engine : StandardEngine) (rows : List RateRow) : List RateRow :=
  ((rows.zip (applyRows base engine rows).1).filter fun pair => pair.2.isEffective).map Prod.fst

/-- The first row of a batch is among those with an effect if it has one. -/
theorem effectiveRows_cons (base : UnitId) (engine : StandardEngine) (row : RateRow)
    (rows : List RateRow) :
    effectiveRows base engine (row :: rows) =
      if (applyRow base engine row).1.isEffective then
        row :: effectiveRows base (applyRow base engine row).2 rows
      else effectiveRows base (applyRow base engine row).2 rows := by
  show (((row, (applyRow base engine row).1) ::
    rows.zip (applyRows base (applyRow base engine row).2 rows).1).filter _).map Prod.fst = _
  rw [List.filter_cons]
  dsimp only
  split <;> rfl

/-- The rows that have an effect come to the same ends without the others, and leave the same
engine. -/
theorem applyRows_effectiveRows (hbase : base.index < engine.units.units.length)
    (rows : List RateRow) :
    applyRows base engine (effectiveRows base engine rows) =
      ((applyRows base engine rows).1.filter RowOutcome.isEffective,
        (applyRows base engine rows).2) := by
  induction rows generalizing engine with
  | nil => rfl
  | cons row rows ih =>
    have hcons (others : List RateRow) : applyRows base engine (row :: others) =
        ((applyRow base engine row).1 :: (applyRows base (applyRow base engine row).2 others).1,
          (applyRows base (applyRow base engine row).2 others).2) := rfl
    have hnext := ih (index_lt_applyRow hbase row)
    rw [effectiveRows_cons, hcons rows]
    by_cases heffective : (applyRow base engine row).1.isEffective
    · rw [if_pos heffective, hcons, hnext, List.filter_cons_of_pos heffective]
    · have hsame := applyRow_of_not_isEffective hbase (Bool.eq_false_iff.mpr heffective)
      rw [if_neg heffective, List.filter_cons_of_neg heffective]
      rw [hsame] at hnext ⊢
      exact hnext

end rows

/-! ## Reports -/

/-- The lists of a report, each as a part of the rows with their outcomes. -/
theorem ofOutcomes_eq (rows : List RateRow) (outcomes : List RowOutcome) :
    RateReport.ofOutcomes rows outcomes =
      { baseAccepted := true
        created :=
          ((rows.zip outcomes).filter fun pair => pair.2 == .created).map fun pair => pair.1.name
        updated :=
          ((rows.zip outcomes).filter fun pair => pair.2 == .updated).map fun pair => pair.1.name
        skipped :=
          ((rows.zip outcomes).zipIdx.filter fun pair => pair.1.2 == .skipped).map fun pair =>
            ⟨pair.2, pair.1.1.name⟩ } :=
  rfl

/-- Without the rows that have no effect, a report lists the others as before and skips none. -/
theorem ofOutcomes_isEffective {rows : List RateRow} {outcomes : List RowOutcome}
    (hlength : outcomes.length = rows.length) :
    RateReport.ofOutcomes
        (((rows.zip outcomes).filter fun pair => pair.2.isEffective).map Prod.fst)
        (outcomes.filter RowOutcome.isEffective) =
      { RateReport.ofOutcomes rows outcomes with skipped := [] } := by
  let kept := (rows.zip outcomes).filter fun pair => pair.2.isEffective
  have houtcomes : outcomes.filter RowOutcome.isEffective = kept.map Prod.snd := by
    have hall : outcomes = (rows.zip outcomes).map Prod.snd :=
      (List.map_snd_zip (by omega)).symm
    conv_lhs => rw [hall, List.filter_map]
    rfl
  have hkept : (kept.map Prod.fst).zip (kept.map Prod.snd) = kept := by
    rw [← List.unzip_fst, ← List.unzip_snd]
    exact List.zip_unzip kept
  -- What is listed as created or updated had an effect, and nothing that had one is skipped.
  have hlisted {wanted : RowOutcome} (hwanted : wanted.isEffective = true) :
      kept.filter (fun pair => pair.2 == wanted) =
        (rows.zip outcomes).filter fun pair => pair.2 == wanted := by
    rw [List.filter_filter]
    refine List.filter_congr fun pair _ => ?_
    by_cases hsame : pair.2 = wanted
    · simp [hsame, hwanted]
    · simp [hsame]
  have hskipped : kept.zipIdx.filter (fun pair => pair.1.2 == .skipped) = [] := by
    refine List.filter_eq_nil_iff.mpr fun pair hpair hskips => ?_
    have hmem : pair.1 ∈ kept := List.fst_mem_of_mem_zipIdx hpair
    have heffective : pair.1.2.isEffective = true := (List.mem_filter.mp hmem).2
    have houtcome : pair.1.2 = .skipped := beq_iff_eq.mp hskips
    rw [houtcome] at heffective
    cases heffective
  rw [houtcomes, ofOutcomes_eq, hkept, hlisted rfl, hlisted rfl, hskipped]
  rfl

/-! ## Batches without the rows that have no effect -/

open StandardEngine

/-- A batch whose base is accepted reports what became of its rows. -/
theorem fst_updateRates_eq {engine : StandardEngine} {name : String} {base : UnitId}
    (hbase : acceptedBase? engine name = some base) (clock : Clock) (rows : List RateRow)
    (warnOnStale : Bool) : (updateRates engine clock rows name warnOnStale).1 =
      RateReport.ofOutcomes rows (applyRows base engine rows).1 := by
  rw [updateRates, hbase]

/-- Rows that are ignored or skipped never matter to the others. Which rows these are can be told
from their names and the engine before the batch: they name the base, or another unit that has no
rate. Without them, with no rate running out of time either way, the table and the setting of the
warning come out the same, each of the other rows comes to the same end, and the report differs in
that it skips none. -/
theorem updateRates_effectiveRows {engine : StandardEngine} {name : String} {base : UnitId}
    {rows : List RateRow} {warn : Bool} {clock clock' : Clock}
    (hbase : acceptedBase? engine name = some base)
    (hin : (engine.applied base rows warn).reloadsInTime clock = true)
    (hin' : (engine.applied base (effectiveRows base engine rows) warn).reloadsInTime clock' =
      true) :
    let outcomes := (applyRows base engine rows).1
    let batch := updateRates engine clock rows name warn
    let batch' := updateRates engine clock' (effectiveRows base engine rows) name warn
    batch'.2.units = batch.2.units ∧ batch'.2.staleWarning = batch.2.staleWarning ∧
      batch'.1 = { batch.1 with skipped := [] } ∧
      (applyRows base engine (effectiveRows base engine rows)).1 =
        outcomes.filter RowOutcome.isEffective ∧
      ∀ row outcome, (row, outcome) ∈ rows.zip outcomes →
        (outcome = .ignored ↔ engine.units.find? row.name = some base) ∧
        (outcome = .skipped ↔ ∃ unit entry, engine.units.find? row.name = some unit ∧
          unit ≠ base ∧ engine.units.get? unit = some entry ∧ isRated entry = false) := by
  intro outcomes batch batch'
  have hlt := UnitTable.index_lt_of_find? (acceptedBase?_eq_some_iff.mp hbase).1
  have hkept := applyRows_effectiveRows hlt rows
  have happlied : engine.applied base (effectiveRows base engine rows) warn =
      engine.applied base rows warn := by
    rw [applied, hkept]
    rfl
  have hafter : batch.2 = (engine.applied base rows warn).reloadCurrencies clock :=
    updateRates_eq hbase clock rows warn
  have hafter' : batch'.2 =
      (engine.applied base (effectiveRows base engine rows) warn).reloadCurrencies clock' :=
    updateRates_eq hbase clock' _ warn
  have hreport : batch.1 = RateReport.ofOutcomes rows outcomes :=
    fst_updateRates_eq hbase clock rows warn
  have hreport' : batch'.1 = RateReport.ofOutcomes (effectiveRows base engine rows)
      (outcomes.filter RowOutcome.isEffective) := by
    have hown := fst_updateRates_eq hbase clock' (effectiveRows base engine rows) warn
    rwa [hkept] at hown
  refine ⟨?_, ?_, ?_, by rw [hkept], fun row outcome hmem => ?_⟩
  · rw [hafter, hafter', units_reloadCurrencies hin, units_reloadCurrencies hin', happlied]
  · rw [hafter, hafter', happlied]
    rfl
  · rw [hreport, hreport']
    exact ofOutcomes_isEffective (length_fst_applyRows base engine rows)
  · rw [← UnitTable.rowOutcome_eq_ignored_iff, ← UnitTable.rowOutcome_eq_skipped_iff]
    rcases outcome_of_mem_zip hlt hmem with rfl | ⟨hcreated, rfl⟩
    · exact ⟨Iff.rfl, Iff.rfl⟩
    · rw [hcreated]
      simp

/-- Of seven rows, those for the euro, the metre and the kilometre have no effect, although the
rates of others mention these units. -/
theorem updateRates_effectiveRows_seven :
    let clock := Clock.metered 0 1
    let rows : List RateRow := [⟨"m", "3"⟩, ⟨"USD", "0.5"⟩, ⟨"euro", "2"⟩, ⟨"m", "4"⟩,
      ⟨"USD", "900 m/km"⟩, ⟨"GBP", "1.2"⟩, ⟨"km", "USD"⟩]
    let kept : List RateRow := [⟨"USD", "0.5"⟩, ⟨"USD", "900 m/km"⟩, ⟨"GBP", "1.2"⟩]
    acceptedBase? withDefinitions "EUR" = some ⟨4⟩ ∧
      (withDefinitions.applied ⟨4⟩ rows true).reloadsInTime clock = true ∧
      (withDefinitions.applied ⟨4⟩ kept true).reloadsInTime clock = true ∧
      effectiveRows ⟨4⟩ withDefinitions rows = kept ∧
      (updateRates withDefinitions clock kept "EUR" true).2.units =
        (updateRates withDefinitions clock rows "EUR" true).2.units ∧
      (updateRates withDefinitions clock kept "EUR" true).1 =
        { (updateRates withDefinitions clock rows "EUR" true).1 with skipped := [] } := by
  intro clock rows kept
  have hbase : acceptedBase? withDefinitions "EUR" = some ⟨4⟩ := by decide +kernel
  have hin : (withDefinitions.applied ⟨4⟩ rows true).reloadsInTime clock = true := by
    decide +kernel
  have hkept : effectiveRows ⟨4⟩ withDefinitions rows = kept := by decide +kernel
  have hin' : (withDefinitions.applied ⟨4⟩ kept true).reloadsInTime clock = true := by
    decide +kernel
  have hsame := updateRates_effectiveRows hbase hin (by rw [hkept]; exact hin')
  rw [hkept] at hsame
  obtain ⟨hunits, -, hreport, -⟩ := hsame
  exact ⟨hbase, hin, hin', hkept, hunits, hreport⟩

end Reckoner
