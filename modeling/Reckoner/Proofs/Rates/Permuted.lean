import Reckoner.Proofs.Evaluation.Renumbering
import Reckoner.Proofs.Rates.Outcomes

/-!
# Rows in another order

The rows of a batch are applied one after another to one table, and their rates may refer to each
other. Where no name occurs twice, their order still does not matter. Each unit is written to by
one row at the most, what becomes of a row depends on the table before the batch, and all rates are
evaluated before any of them is stored. What the order decides is at which places new units are
added, and rates have the same values wherever their units are.
-/

namespace Reckoner

open StandardEngine

/-! ## Places in a list -/

/-- If the end of a list is put in another order, its elements can be followed to their new
places. -/
theorem exists_places_of_perm {α : Type} {items items' : List α} (hperm : items.Perm items')
    (front : List α) :
    ∃ place : Equiv.Perm Nat, (∀ i < front.length, place i = i) ∧
      ∀ i, (front ++ items')[place i]? = (front ++ items)[i]? := by
  induction hperm generalizing front with
  | nil => exact ⟨.refl Nat, fun _ _ => rfl, fun _ => rfl⟩
  | cons first _ ih =>
    obtain ⟨place, hfixed, hsame⟩ := ih (front ++ [first])
    simp only [List.append_assoc, List.singleton_append] at hsame
    refine ⟨place, fun i hi => hfixed i ?_, hsame⟩
    rw [List.length_append]
    exact Nat.lt_add_right 1 hi
  | swap first second rest =>
    refine ⟨Equiv.swap front.length (front.length + 1), fun i hi => ?_, fun i => ?_⟩
    · exact Equiv.swap_apply_of_ne_of_ne (by omega) (by omega)
    · by_cases hfirst : i = front.length
      · rw [hfirst, Equiv.swap_apply_left]
        simp
      · by_cases hsecond : i = front.length + 1
        · rw [hsecond, Equiv.swap_apply_right]
          simp
        · rw [Equiv.swap_apply_of_ne_of_ne hfirst hsecond]
          by_cases hi : i < front.length
          · rw [List.getElem?_append_left hi, List.getElem?_append_left hi]
          · obtain ⟨k, hk⟩ : ∃ k, i - front.length = k + 2 := ⟨i - front.length - 2, by omega⟩
            rw [List.getElem?_append_right (by omega), List.getElem?_append_right (by omega), hk]
            rfl
  | trans _ _ ihfirst ihsecond =>
    obtain ⟨place, hfixed, hsame⟩ := ihfirst front
    obtain ⟨place', hfixed', hsame'⟩ := ihsecond front
    refine ⟨place.trans place', fun i hi => ?_, fun i => ?_⟩
    · rw [Equiv.trans_apply, hfixed i hi, hfixed' i hi]
    · rw [Equiv.trans_apply, hsame', hsame]

/-- Of elements of which at most one passes a test, the last one that does so is the same in any
order. -/
theorem getLast?_filter_of_perm {α β : Type} {key : α → β} {items items' : List α}
    (hperm : items.Perm items') (hnodup : (items.map key).Nodup) {test : α → Bool} {k : β}
    (htest : ∀ item, test item = true → key item = k) :
    (items'.filter test).getLast? = (items.filter test).getLast? := by
  have hfiltered := hperm.filter test
  have hkept : ((items.filter test).map key).Nodup :=
    hnodup.sublist (List.filter_sublist.map key)
  cases hitems : items.filter test with
  | nil =>
    rw [hitems] at hfiltered
    rw [hfiltered.symm.eq_nil]
  | cons first others =>
    cases others with
    | nil =>
      rw [hitems] at hfiltered
      rw [List.perm_singleton.mp hfiltered.symm]
    | cons second others =>
      have hkey (item : α) (hitem : item ∈ items.filter test) : key item = k :=
        htest item (List.mem_filter.mp hitem).2
      rw [hitems] at hkey hkept
      have hsame : key first = key second :=
        (hkey first (by simp)).trans (hkey second (by simp)).symm
      simp [hsame] at hkept

/-! ## Units at other places -/

/-- The same units at other places, under the same names. -/
structure UnitTable.Moved (place : Equiv.Perm UnitId) (table table' : UnitTable) : Prop where
  get?_eq : ∀ unit, table'.get? (place unit) = table.get? unit
  find?_eq : ∀ name, table'.find? name = (table.find? name).map place

namespace UnitTable

variable {table table' : UnitTable} {base : UnitId} {rows rows' : List RateRow}
  {place : Equiv.Perm UnitId}

/-- Where names are apart, they follow their units to other places. -/
theorem moved_of_get? (hapart : table'.NamesApart)
    (hget : ∀ unit, table'.get? (place unit) = table.get? unit) : table.Moved place table' := by
  refine ⟨hget, fun name => ?_⟩
  cases hfound : table.find? name with
  | some unit =>
    obtain ⟨entry, hentry, hname⟩ := get?_of_find? hfound
    rw [← hget] at hentry
    exact hapart.find?_eq hentry (List.contains_iff_mem.mp hname)
  | none =>
    cases hfound' : table'.find? name with
    | none => rfl
    | some unit =>
      obtain ⟨entry, hentry, hname⟩ := get?_of_find? hfound'
      rw [← place.apply_symm_apply unit, hget] at hentry
      exact absurd (List.contains_iff_mem.mp hname) (not_mem_names hfound hentry)

/-- Where the bases keep their places, units at other places are units under other numbers. -/
theorem Moved.renumbered (hmoved : table.Moved place table')
    (hbases : ∀ unit entry target, table.get? unit = some entry → entry.base = some target →
      place target = target) : table.Renumbered place table' := by
  refine ⟨place.injective, hmoved.find?_eq, fun unit => ?_⟩
  rw [hmoved.get?_eq]
  cases hentry : table.get? unit with
  | none => rfl
  | some entry =>
    have hkept : entry.base.map place = entry.base := by
      cases htarget : entry.base with
      | none => rfl
      | some target => exact congrArg some (hbases unit entry target hentry htarget)
    rw [Option.map_some, UnitEntry.renumbered, hkept]

/-- The units that are added for rows with different names are those of the rows whose names are
new. -/
theorem units_allNamed (hnodup : (rows.map RateRow.name).Nodup) :
    (table.allNamed base rows).units =
      table.units ++ (rows.filter fun row => (table.find? row.name).isNone).map fun row =>
        .ofSpec { name := row.name, base } := by
  induction rows generalizing table with
  | nil => exact (List.append_nil _).symm
  | cons row rows ih =>
    rw [List.map_cons, List.nodup_cons] at hnodup
    rw [allNamed, List.foldl_cons]
    refine (ih hnodup.2).trans ?_
    cases hfound : table.find? row.name with
    | some unit =>
      rw [named_of_find? hfound, List.filter_cons_of_neg (by simp [hfound])]
    | none =>
      have hadded : table.named base row = (table.add (.ofSpec { name := row.name, base })).2 := by
        rw [named, hfound]
      have hothers : rows.filter (fun other => ((table.named base row).find? other.name).isNone) =
          rows.filter fun other => (table.find? other.name).isNone := by
        refine List.filter_congr fun other hother => ?_
        have hname : other.name ≠ row.name := fun h =>
          hnodup.1 (h ▸ List.mem_map_of_mem hother)
        rw [hadded, find?_add, if_neg (by simpa [UnitEntry.ofSpec] using hname)]
      rw [hothers, hadded, List.filter_cons_of_pos (by simp [hfound])]
      simp [add]

/-- If rows with different names are put in another order, the same units are added, and those that
were there before keep their places. -/
theorem exists_places_allNamed (hperm : rows.Perm rows') (hnodup : (rows.map RateRow.name).Nodup)
    (table : UnitTable) (base : UnitId) :
    ∃ place : Equiv.Perm UnitId, (∀ unit, unit.index < table.units.length → place unit = unit) ∧
      ∀ unit, (table.allNamed base rows').get? (place unit) =
        (table.allNamed base rows).get? unit := by
  have hnodup' : (rows'.map RateRow.name).Nodup := (hperm.map _).nodup_iff.mp hnodup
  have hadded := (hperm.filter fun row => (table.find? row.name).isNone).map fun row =>
    UnitEntry.ofSpec { name := row.name, base }
  obtain ⟨place, hfixed, hsame⟩ := exists_places_of_perm hadded table.units
  rw [← units_allNamed hnodup, ← units_allNamed hnodup'] at hsame
  let index : UnitId ≃ Nat := ⟨UnitId.index, UnitId.mk, fun _ => rfl, fun _ => rfl⟩
  refine ⟨(index.trans place).trans index.symm, fun unit hunit => ?_, fun unit => hsame unit.index⟩
  exact congrArg UnitId.mk (hfixed unit.index hunit)

/-- A currency goes by one name, so that at most one of some rows with different names is written to
it, and this is the same row in any order. -/
theorem Moved.lastRow?_eq (hmoved : table.Moved place table') (hbase : place base = base)
    (hanchored : table.Anchored base) (hsingle : table.SingleNamed base)
    (hperm : rows.Perm rows') (hnodup : (rows.map RateRow.name).Nodup) {unit : UnitId}
    {entry : UnitEntry} (hentry : table.get? unit = some entry)
    (hrated : StandardEngine.isRated entry = true) :
    table'.lastRow? base rows' (place unit) = table.lastRow? base rows unit := by
  have hunit : unit ≠ base := by
    rintro rfl
    obtain rfl := Option.some.inj (hanchored.get?_anchor.symm.trans hentry)
    cases hrated
  obtain ⟨name, hnames⟩ := hsingle unit entry hentry (Bool.and_eq_true_iff.mp hrated).1 hunit
  have hplace : place unit ≠ base := fun h => hunit (place.injective (h.trans hbase.symm))
  have hwrites (row : RateRow) : table'.find? row.name = some (place unit) ↔
      table.find? row.name = some unit := by
    rw [hmoved.find?_eq, ← Option.map_some]
    exact (Option.map_injective place.injective).eq_iff
  simp only [lastRow?, hwrites, ne_eq, hunit, hplace]
  refine getLast?_filter_of_perm hperm hnodup (k := name) fun row hrow => ?_
  have hfound : table.find? row.name = some unit := (of_decide_eq_true hrow).1
  obtain ⟨entry', hentry', hname⟩ := get?_of_find? hfound
  obtain rfl := Option.some.inj (hentry.symm.trans hentry')
  rw [hnames] at hname
  exact List.mem_singleton.mp (List.contains_iff_mem.mp hname)

/-- Where rows have different names, each rate is written to the same unit in any order. -/
theorem Moved.allRerated (hmoved : table.Moved place table') (hbase : place base = base)
    (hanchored : table.Anchored base) (hsingle : table.SingleNamed base)
    (hperm : rows.Perm rows') (hnodup : (rows.map RateRow.name).Nodup) :
    (table.allRerated base rows).Moved place (table'.allRerated base rows') := by
  refine ⟨fun unit => ?_, fun name => ?_⟩
  · rw [get?_allRerated, get?_allRerated, hmoved.get?_eq]
    cases hentry : table.get? unit with
    | none => rfl
    | some entry =>
      by_cases hrated : StandardEngine.isRated entry
      · have hlast := hmoved.lastRow?_eq hbase hanchored hsingle hperm hnodup hentry hrated
        rw [hlast]
      · have hkept (row? : Option RateRow) : entry.reratedBy base row? = entry := by
          cases row? with
          | none => rfl
          | some row => exact if_neg hrated
        rw [Option.map_some, Option.map_some, hkept, hkept]
  · rw [find?_allRerated, find?_allRerated, hmoved.find?_eq]

/-- The units that others are multiples of do not come after the anchor. -/
def BasesUpTo (table : UnitTable) (anchor : UnitId) : Prop :=
  ∀ unit entry target, table.get? unit = some entry → entry.base = some target →
    target.index ≤ anchor.index

namespace BasesUpTo

variable {anchor : UnitId}

/-- Bases stay up to the anchor while units keep theirs or are made multiples of the anchor. -/
theorem of_map (htable : table.BasesUpTo anchor) (change : UnitId → UnitEntry → UnitEntry)
    (hget : ∀ unit, table'.get? unit = (table.get? unit).map (change unit))
    (hbase : ∀ unit entry, (change unit entry).base = entry.base ∨
      (change unit entry).base = some anchor) : table'.BasesUpTo anchor := by
  intro unit entry target hentry htarget
  rw [hget] at hentry
  obtain ⟨before, hbefore, rfl⟩ := Option.map_eq_some_iff.mp hentry
  rcases hbase unit before with hkept | hset
  · exact htable unit before target hbefore (hkept.symm.trans htarget)
  · obtain rfl := Option.some.inj (hset.symm.trans htarget)
    exact Nat.le_refl _

/-- The units that are added are multiples of the anchor. -/
theorem allNamed (htable : table.BasesUpTo anchor) (rows : List RateRow) :
    (table.allNamed anchor rows).BasesUpTo anchor := by
  induction rows generalizing table with
  | nil => exact htable
  | cons row rows ih =>
    refine ih ?_
    unfold named
    split
    · exact htable
    · intro unit entry target hentry htarget
      rw [get?_add] at hentry
      split at hentry
      · obtain rfl := Option.some.inj hentry
        obtain rfl := Option.some.inj htarget
        exact Nat.le_refl _
      · exact htable unit entry target hentry htarget

/-- The units that rates are written to become multiples of the anchor. -/
theorem allRerated (htable : table.BasesUpTo anchor) (rows : List RateRow) :
    (table.allRerated anchor rows).BasesUpTo anchor := by
  refine htable.of_map _ (fun unit => get?_allRerated table rows unit) fun unit entry => ?_
  cases table.lastRow? anchor rows unit with
  | none => exact .inl rfl
  | some row =>
    show (entry.rerated anchor row.rate).base = _ ∨ (entry.rerated anchor row.rate).base = _
    unfold UnitEntry.rerated
    split
    · exact .inr rfl
    · exact .inl rfl

end BasesUpTo

end UnitTable

/-! ## What becomes of the rows -/

/-- What becomes of a row does not depend on the rows before it if they have other names. -/
theorem fst_applyRows_of_nodup {engine : StandardEngine} {base : UnitId} {rows : List RateRow}
    (hbase : base.index < engine.units.units.length) (hnodup : (rows.map RateRow.name).Nodup) :
    (applyRows base engine rows).1 = rows.map (engine.units.rowOutcome base) := by
  induction rows generalizing engine with
  | nil => rfl
  | cons row rows ih =>
    rw [List.map_cons, List.nodup_cons] at hnodup
    show (applyRow base engine row).1 :: (applyRows base (applyRow base engine row).2 rows).1 = _
    rw [fst_applyRow, ih (index_lt_applyRow hbase row) hnodup.2, List.map_cons]
    refine congrArg _ (List.map_congr_left fun other hother => ?_)
    rw [rowOutcome_applyRow hbase, if_neg]
    rintro ⟨-, hname⟩
    exact hnodup.1 (hname ▸ List.mem_map_of_mem hother)

/-- Where what becomes of a row can be told from the row, a report lists the same names for any
order of the rows. -/
theorem ofOutcomes_map_perm {rows rows' : List RateRow} (hperm : rows.Perm rows')
    (f : RateRow → RowOutcome) :
    let report := RateReport.ofOutcomes rows (rows.map f)
    let report' := RateReport.ofOutcomes rows' (rows'.map f)
    report.created.Perm report'.created ∧ report.updated.Perm report'.updated ∧
      (report.skipped.map SkippedRow.name).Perm (report'.skipped.map SkippedRow.name) := by
  have hzip (rows : List RateRow) : rows.zip (rows.map f) = rows.map fun row => (row, f row) := by
    induction rows with
    | nil => rfl
    | cons row rows ih => exact congrArg ((row, f row) :: ·) ih
  have hlisted (wanted : RowOutcome) (rows : List RateRow) :
      ((rows.zip (rows.map f)).filter fun pair => pair.2 == wanted).map (fun pair => pair.1.name) =
        (rows.filter fun row => f row == wanted).map RateRow.name := by
    rw [hzip, List.filter_map, List.map_map]
    rfl
  have hskipped (rows : List RateRow) :
      (RateReport.ofOutcomes rows (rows.map f)).skipped.map SkippedRow.name =
        (rows.filter fun row => f row == .skipped).map RateRow.name := by
    have hfst : rows.zip (rows.map f) = (rows.zip (rows.map f)).zipIdx.map Prod.fst :=
      (List.zipIdx_map_fst 0 _).symm
    rw [← hlisted, hfst, List.filter_map, List.map_map, ofOutcomes_eq, List.map_map]
    rfl
  have hcreated (rows : List RateRow) : (RateReport.ofOutcomes rows (rows.map f)).created =
      (rows.filter fun row => f row == .created).map RateRow.name := hlisted .created rows
  have hupdated (rows : List RateRow) : (RateReport.ofOutcomes rows (rows.map f)).updated =
      (rows.filter fun row => f row == .updated).map RateRow.name := hlisted .updated rows
  dsimp only
  rw [hcreated, hcreated, hupdated, hupdated, hskipped, hskipped]
  exact ⟨(hperm.filter _).map _, (hperm.filter _).map _, (hperm.filter _).map _⟩

/-! ## Engines and sessions -/

namespace StandardEngine

variable {engine engine' : StandardEngine} {anchor : UnitId} {rows rows' : List RateRow}

/-- An evaluation with units under other numbers ends alike. -/
theorem evaluate_renumbered {number : UnitId → UnitId}
    (hunits : engine.units.Renumbered number engine'.units)
    (hconstants : engine'.constants = engine.constants)
    (hfunctions : engine'.functions = engine.functions) (settings : Settings) (clock : Clock)
    (budget : Nat) (start : Run) (e : Expr) :
    engine'.evaluate settings clock budget start e =
      ((engine.evaluate settings clock budget start e).1.map (Quantity.renumbered number),
        (engine.evaluate settings clock budget start e).2) := by
  unfold evaluate
  rw [← Evaluation.run_map, ← Scope.eval_renumbered _ hunits]
  unfold scope
  rw [hconstants, hfunctions]

/-- A rate has the same value whatever numbers the units have. -/
theorem rate_renumbered {number : UnitId → UnitId}
    (hunits : engine.units.Renumbered number engine'.units)
    (hconstants : engine'.constants = engine.constants)
    (hfunctions : engine'.functions = engine.functions) (text : String) :
    engine'.rate text = engine.rate text := by
  unfold rate evaluateRate
  cases Expr.parse text with
  | error fault => rfl
  | ok e =>
    dsimp only
    rw [evaluate_renumbered hunits hconstants hfunctions]
    cases hrun : engine.evaluate {} .stopped rateBudget { ticks := 0 } e with
    | mk outcome run =>
      cases outcome with
      | ok q => simp [Except.map, Quantity.renumbered]
      | error halt => cases halt; rfl

/-- In any order of rows with different names the same units are there when the rates are to be
evaluated. Those that were there before are at their old places. -/
theorem exists_moved_applied (hengine : engine.IsStandard anchor) (hperm : rows.Perm rows')
    (hnodup : (rows.map RateRow.name).Nodup) (warn : Bool) :
    ∃ place : Equiv.Perm UnitId,
      (∀ unit, unit.index < engine.units.units.length → place unit = unit) ∧
      (engine.applied anchor rows warn).units.Moved place
        (engine.applied anchor rows' warn).units := by
  have hnamed := hengine.isAnchored.2.allNamed rows
  have hnamed' := hengine.isAnchored.2.allNamed rows'
  obtain ⟨place, hfixed, hadded⟩ :=
    UnitTable.exists_places_allNamed hperm hnodup engine.units anchor
  have hmoved := UnitTable.moved_of_get? hnamed'.apart hadded
  refine ⟨place, hfixed, ?_⟩
  rw [applied_eq hengine.index_lt, applied_eq hengine.index_lt]
  exact hmoved.allRerated (hfixed anchor hengine.index_lt) hnamed
    (hengine.singleNamed.allNamed rows) hperm hnodup

/-- Rates that are evaluated with the same units at other places have the same values. -/
theorem refreshed_of_moved (hengine : engine.IsStandard anchor)
    (hbases : engine.units.BasesUpTo anchor) {place : Equiv.Perm UnitId}
    (hfixed : ∀ unit, unit.index < engine.units.units.length → place unit = unit) {warn : Bool}
    (hmoved : (engine.applied anchor rows warn).units.Moved place
      (engine.applied anchor rows' warn).units) :
    (engine.applied anchor rows' warn).refreshed = (engine.applied anchor rows warn).refreshed := by
  have hrenumbered := hmoved.renumbered fun unit entry target hentry htarget => by
    rw [applied_eq hengine.index_lt] at hentry
    have hupto := (hbases.allNamed rows).allRerated rows unit entry target hentry htarget
    exact hfixed target (Nat.lt_of_le_of_lt hupto hengine.index_lt)
  have hconstants : (engine.applied anchor rows' warn).constants =
      (engine.applied anchor rows warn).constants := by
    rw [applied_eq hengine.index_lt, applied_eq hengine.index_lt]
  have hfunctions : (engine.applied anchor rows' warn).functions =
      (engine.applied anchor rows warn).functions := by
    rw [applied_eq hengine.index_lt, applied_eq hengine.index_lt]
  funext entry
  unfold refreshed
  rw [rate_renumbered hrenumbered hconstants hfunctions]

/-- After a batch the same units are there in any order of rows with different names. Those that
were there before are at their old places. -/
theorem exists_moved_updateRates (hengine : engine.IsStandard anchor)
    (hbases : engine.units.BasesUpTo anchor) {name : String} {warn : Bool} {clock clock' : Clock}
    (hbase : acceptedBase? engine name = some anchor) (hperm : rows.Perm rows')
    (hnodup : (rows.map RateRow.name).Nodup)
    (hin : (engine.applied anchor rows warn).reloadsInTime clock = true)
    (hin' : (engine.applied anchor rows' warn).reloadsInTime clock' = true) :
    ∃ place : Equiv.Perm UnitId,
      (∀ unit, unit.index < engine.units.units.length → place unit = unit) ∧
      (updateRates engine clock rows name warn).2.units.Moved place
        (updateRates engine clock' rows' name warn).2.units := by
  obtain ⟨place, hfixed, hmoved⟩ := exists_moved_applied hengine hperm hnodup warn
  have hrefreshed := refreshed_of_moved hengine hbases hfixed hmoved
  have hapart := (hengine.isAnchored.updateRates clock' rows' name warn).2.apart
  refine ⟨place, hfixed, UnitTable.moved_of_get? hapart fun unit => ?_⟩
  have hmapped (engine : StandardEngine) (unit : UnitId) :
      (⟨engine.units.units.map engine.refreshed⟩ : UnitTable).get? unit =
        (engine.units.get? unit).map engine.refreshed :=
    List.getElem?_map
  rw [updateRates_eq hbase, updateRates_eq hbase, units_reloadCurrencies hin,
    units_reloadCurrencies hin', hmapped, hmapped, hmoved.get?_eq, hrefreshed]

/-- A batch leaves bases up to the anchor. -/
theorem basesUpTo_updateRates (hengine : engine.IsStandard anchor)
    (hbases : engine.units.BasesUpTo anchor) (clock : Clock) (rows : List RateRow)
    (baseName : String) (warnOnStale : Bool) :
    (updateRates engine clock rows baseName warnOnStale).2.units.BasesUpTo anchor := by
  cases hbase : acceptedBase? engine baseName with
  | none =>
    rw [updateRates, hbase]
    exact hbases
  | some base =>
    obtain ⟨-, hanchor⟩ := acceptedBase?_eq_some_iff.mp hbase
    obtain rfl := Option.some.inj (hengine.isAnchored.1.symm.trans hanchor)
    have happlied : (engine.applied anchor rows warnOnStale).units.BasesUpTo anchor := by
      rw [applied_eq hengine.index_lt]
      exact (hbases.allNamed rows).allRerated rows
    rw [updateRates_eq hbase]
    refine happlied.of_map _ (get?_reloadCurrencies _ clock) fun unit entry => ?_
    split <;> exact .inl rfl

/-- Of the standard units, only the kilometre is a multiple of another one: of the metre, which is
the first. -/
theorem basesUpTo_withDefinitions : withDefinitions.units.BasesUpTo ⟨4⟩ := by
  have hbases : ∀ pair ∈ withDefinitions.units.entries, ∀ target, pair.2.base = some target →
      target.index ≤ 4 := by
    decide +kernel
  exact fun unit entry target hentry =>
    hbases (unit, entry) (UnitTable.mem_entries.mpr hentry) target

end StandardEngine

namespace Session

open StandardEngine

/-- Any sequence of requests leaves bases up to the anchor. -/
theorem basesUpTo_afterRequests {session : Session StandardEngine} {anchor : UnitId}
    (hengine : session.engine.IsStandard anchor) (hbases : session.engine.units.BasesUpTo anchor)
    (requests : List Request) :
    (session.afterRequests requests).engine.units.BasesUpTo anchor := by
  induction requests generalizing session with
  | nil => exact hbases
  | cons request requests ih =>
    refine ih (isStandard_serve hengine request) ?_
    cases request with
    | call c =>
      obtain ⟨messages, hcall⟩ := sameDefinitions_call session c
      rw [serve, hcall]
      exact hbases
    | rates clock rows baseName warnOnStale =>
      exact basesUpTo_updateRates hengine hbases clock rows baseName warnOnStale
    | setOption command =>
      rw [serve, setOption]
      split <;> exact hbases

/-- Whatever a session with the standard definitions was asked for before, the order of the rows of
an accepted batch does not matter, if no name occurs twice among them and no rate runs out of time.
In any other order the units are the same, with the same names, bases, expressions, factors and
marks. Only the places of those that were added are others; all units that were there before keep
theirs. Each name stands for the same unit, or for none, and the same names are reported as created,
updated and skipped. -/
theorem updateRates_anyOrder (settings : Settings) (plot : PlotSlot) (requests : List Request) :
    let engine := (afterRequests { engine := withDefinitions, settings, plot } requests).engine
    ∀ (name : String) (base : UnitId) (rows rows' : List RateRow) (warn : Bool)
      (clock clock' : Clock),
      acceptedBase? engine name = some base → rows.Perm rows' → (rows.map RateRow.name).Nodup →
      (engine.applied base rows warn).reloadsInTime clock = true →
      (engine.applied base rows' warn).reloadsInTime clock' = true →
      let batch := Reckoner.updateRates engine clock rows name warn
      let batch' := Reckoner.updateRates engine clock' rows' name warn
      (∃ place : Equiv.Perm UnitId,
        (∀ unit, unit.index < engine.units.units.length → place unit = unit) ∧
        (∀ unit, batch'.2.units.get? (place unit) = batch.2.units.get? unit) ∧
        ∀ label, batch'.2.units.find? label = (batch.2.units.find? label).map place) ∧
      (∀ label, (batch'.2.units.find? label).bind batch'.2.units.get? =
        (batch.2.units.find? label).bind batch.2.units.get?) ∧
      batch.1.created.Perm batch'.1.created ∧ batch.1.updated.Perm batch'.1.updated ∧
      (batch.1.skipped.map SkippedRow.name).Perm (batch'.1.skipped.map SkippedRow.name) := by
  intro engine name base rows rows' warn clock clock' hbase hperm hnodup hin hin' batch batch'
  have hengine : engine.IsStandard ⟨4⟩ := isStandard_afterRequests isStandard_withDefinitions _
  have hbases : engine.units.BasesUpTo ⟨4⟩ :=
    basesUpTo_afterRequests isStandard_withDefinitions basesUpTo_withDefinitions _
  obtain ⟨-, hanchor⟩ := acceptedBase?_eq_some_iff.mp hbase
  obtain rfl := Option.some.inj (hengine.isAnchored.1.symm.trans hanchor)
  obtain ⟨place, hfixed, hmoved⟩ :=
    exists_moved_updateRates hengine hbases hbase hperm hnodup hin hin'
  have hnodup' : (rows'.map RateRow.name).Nodup := (hperm.map _).nodup_iff.mp hnodup
  have hreport : batch.1 =
      RateReport.ofOutcomes rows (rows.map (engine.units.rowOutcome ⟨4⟩)) :=
    (fst_updateRates_eq hbase clock rows warn).trans
      (congrArg _ (fst_applyRows_of_nodup hengine.index_lt hnodup))
  have hreport' : batch'.1 =
      RateReport.ofOutcomes rows' (rows'.map (engine.units.rowOutcome ⟨4⟩)) :=
    (fst_updateRates_eq hbase clock' rows' warn).trans
      (congrArg _ (fst_applyRows_of_nodup hengine.index_lt hnodup'))
  refine ⟨⟨place, hfixed, hmoved.get?_eq, hmoved.find?_eq⟩, fun label => ?_, ?_⟩
  · rw [show batch'.2.units.find? label = _ from hmoved.find?_eq label]
    cases batch.2.units.find? label with
    | none => rfl
    | some unit => exact hmoved.get?_eq unit
  · rw [hreport, hreport']
    exact ofOutcomes_map_perm hperm _

/-- Of four rows two name new currencies, the dollar and the pound, which are added the one way
round and the other. The rate of the pound refers to the franc, which has a row of its own. -/
theorem updateRates_anyOrder_four :
    let clock := Clock.metered 0 1
    let engine := (afterRequests { engine := withDefinitions }
      [.rates clock [⟨"CHF", "0.9"⟩] "EUR" true]).engine
    let rows : List RateRow :=
      [⟨"USD", "0.5"⟩, ⟨"CHF", "km/m"⟩, ⟨"m", "1"⟩, ⟨"GBP", "2 CHF/EUR"⟩]
    let rows' : List RateRow :=
      [⟨"GBP", "2 CHF/EUR"⟩, ⟨"m", "1"⟩, ⟨"USD", "0.5"⟩, ⟨"CHF", "km/m"⟩]
    acceptedBase? engine "EUR" = some ⟨4⟩ ∧ rows.Perm rows' ∧ (rows.map RateRow.name).Nodup ∧
      (engine.applied ⟨4⟩ rows true).reloadsInTime clock = true ∧
      (engine.applied ⟨4⟩ rows' true).reloadsInTime clock = true ∧
      ∀ label, ((Reckoner.updateRates engine clock rows' "EUR" true).2.units.find? label).bind
          (Reckoner.updateRates engine clock rows' "EUR" true).2.units.get? =
        ((Reckoner.updateRates engine clock rows "EUR" true).2.units.find? label).bind
          (Reckoner.updateRates engine clock rows "EUR" true).2.units.get? := by
  intro clock engine rows rows'
  have hbase : acceptedBase? engine "EUR" = some ⟨4⟩ := by decide +kernel
  have hperm : rows.Perm rows' := by decide +kernel
  have hnodup : (rows.map RateRow.name).Nodup := by decide +kernel
  have hin : (engine.applied ⟨4⟩ rows true).reloadsInTime clock = true := by decide +kernel
  have hin' : (engine.applied ⟨4⟩ rows' true).reloadsInTime clock = true := by decide +kernel
  obtain ⟨-, hlabels, -⟩ := updateRates_anyOrder {} .empty _ "EUR" ⟨4⟩ rows rows' true clock clock
    hbase hperm hnodup hin hin'
  exact ⟨hbase, hperm, hnodup, hin, hin', hlabels⟩

end Session

end Reckoner
