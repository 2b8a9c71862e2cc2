import Reckoner.Proofs.Units.Lookup
import Reckoner.Rates
import Reckoner.StandardEngine

/-!
# What a batch of rates writes

A batch does two things to the table of the standard engine: it adds a unit for every name that does
not have one, and it writes the rate of a row to the unit that its name stands for. The rows are
applied one after another, but the table is the same as if all units were added first. A unit then
holds what the last of its rows says, and a batch that is applied again changes nothing.
-/

namespace Reckoner

/-! ## Writing a rate -/

/-- A currency other than a root with the rate of a row. Other units are left alone. -/
def UnitEntry.rerated (entry : UnitEntry) (base : UnitId) (rate : String) : UnitEntry :=
  if StandardEngine.isRated entry then
    { entry with
      base := some base
      expression := rate
      approximate := true
      precision := some currencyPrecision
      changed := false }
  else entry

namespace UnitEntry

variable (entry : UnitEntry) (base : UnitId) (rate : String)

/-- The edits of a row come down to writing its rate. -/
theorem foldl_edits (row : RateRow) (hrated : StandardEngine.isRated entry = true) :
    (row.edits base).foldl CurrencyEdit.apply entry = entry.rerated base row.rate := by
  rw [rerated, if_pos hrated]
  simp only [RateRow.edits, List.foldl_cons, List.foldl_nil, CurrencyEdit.apply]
  split
  · next hsame => rw [← hsame]
  · rfl

/-- A rate does not change the names. -/
@[simp] theorem names_rerated : (entry.rerated base rate).names = entry.names := by
  unfold rerated
  split <;> rfl

/-- What has a rate keeps having one. -/
@[simp] theorem isRated_rerated :
    StandardEngine.isRated (entry.rerated base rate) = StandardEngine.isRated entry := by
  unfold rerated
  split
  · next hrated =>
    have hcurrency : entry.isCurrency = true := (Bool.and_eq_true_iff.mp hrated).1
    rw [hrated]
    show (entry.isCurrency && true) = true
    rw [hcurrency]
    rfl
  · rfl

/-- The last rate that is written counts. -/
@[simp] theorem rerated_rerated (earlier : String) :
    (entry.rerated base earlier).rerated base rate = entry.rerated base rate := by
  by_cases hrated : StandardEngine.isRated entry
  · rw [rerated, if_pos (by rw [isRated_rerated]; exact hrated), rerated, if_pos hrated, rerated,
      if_pos hrated]
  · rw [rerated, isRated_rerated, if_neg hrated, rerated, if_neg hrated, rerated, if_neg hrated]

end UnitEntry

namespace UnitTable

/-- The table with a unit for the name of a row. -/
def named (base : UnitId) (table : UnitTable) (row : RateRow) : UnitTable :=
  match table.find? row.name with
  | some _ => table
  | none => (table.add (.ofSpec { name := row.name, base })).2

/-- The table with the rate of a row at the unit that its name stands for. The base keeps its
own. -/
def rerate (base : UnitId) (table : UnitTable) (row : RateRow) : UnitTable :=
  match table.find? row.name with
  | some unit => if unit = base then table else table.modify unit (·.rerated base row.rate)
  | none => table

variable {base : UnitId} {table : UnitTable} {row : RateRow}

/-- Writing a rate keeps the names. -/
theorem names_rerate :
    (table.rerate base row).units.map UnitEntry.names = table.units.map UnitEntry.names := by
  unfold rerate
  split
  · split
    · rfl
    · exact table.names_modify _ fun entry => by simp
  · rfl

/-- Writing a rate leaves the units of all names where they are. -/
@[simp] theorem find?_rerate (name : String) :
    (table.rerate base row).find? name = table.find? name :=
  find?_congr names_rerate name

/-- Writing a rate changes the unit that the row names. -/
theorem get?_rerate (unit : UnitId) :
    (table.rerate base row).get? unit = (table.get? unit).map fun entry =>
      if table.find? row.name = some unit ∧ unit ≠ base then entry.rerated base row.rate
      else entry := by
  unfold rerate
  split
  · next found hfound =>
    rw [hfound]
    by_cases hbase : found = base
    · rw [if_pos hbase]
      have hnot : ¬ (some found = some unit ∧ unit ≠ base) := by
        rintro ⟨hunit, hne⟩
        exact hne ((Option.some.inj hunit).symm.trans hbase)
      simp only [if_neg hnot, Option.map_id']
    · rw [if_neg hbase, get?_modify]
      congr 1
      funext entry
      by_cases hunit : unit = found
      · rw [if_pos hunit, if_pos ⟨by rw [hunit], by rw [hunit]; exact hbase⟩]
      · rw [if_neg hunit, if_neg fun h => hunit (Option.some.inj h.1).symm]
  · next hnone => simp [hnone]

/-- The name of a row has a unit once it was given one. -/
theorem exists_find?_named : ∃ unit, (table.named base row).find? row.name = some unit := by
  unfold named
  split
  · next unit hfound => exact ⟨unit, hfound⟩
  · refine ⟨⟨table.units.length⟩, ?_⟩
    rw [find?_add, if_pos (by simp [UnitEntry.ofSpec])]

/-- A name that has a unit keeps it. -/
theorem find?_named {name : String} {unit : UnitId} (hfound : table.find? name = some unit) :
    (table.named base row).find? name = some unit := by
  unfold named
  split
  · exact hfound
  · next hnone =>
    have hother : name ≠ row.name := fun h => by rw [← h, hfound] at hnone; cases hnone
    rw [find?_add, if_neg (by simpa [UnitEntry.ofSpec] using hother), hfound]

/-- A name that has a unit needs no other one. -/
theorem named_of_find? {unit : UnitId} (hfound : table.find? row.name = some unit) :
    table.named base row = table := by
  rw [named, hfound]

/-- Writing a rate adds no unit. -/
theorem length_rerate : (table.rerate base row).units.length = table.units.length := by
  have hnames : (table.rerate base row).units.map UnitEntry.names = _ := names_rerate
  have hlength := congrArg List.length hnames
  rwa [List.length_map, List.length_map] at hlength

/-- Units are added the same way before and after a rate is written. -/
theorem named_rerate {other : RateRow} {unit : UnitId}
    (hfound : table.find? row.name = some unit) :
    (table.rerate base row).named base other = (table.named base other).rerate base row := by
  cases hother : table.find? other.name with
  | some found =>
    rw [named_of_find? hother, named_of_find? ((find?_rerate _).trans hother)]
  | none =>
    have hkept : (table.named base other).find? row.name = some unit := find?_named hfound
    have hunit := index_lt_of_find? hfound
    apply ext_get?
    intro place
    rw [get?_rerate, hkept, named, (find?_rerate _).trans hother, named, hother, get?_add, get?_add,
      get?_rerate, length_rerate, hfound]
    split
    · next hlast =>
      have hnot : ¬ (some unit = some place ∧ place ≠ base) := by
        rintro ⟨hplace, -⟩
        rw [Option.some.inj hplace] at hunit
        omega
      rw [Option.map_some, if_neg hnot]
    · rfl

end UnitTable

/-! ## Rows one after another -/

section rows

variable {base : UnitId} {engine : StandardEngine}

/-- A unit without a rate is not given one. -/
theorem modify_rerated_of_unrated {table : UnitTable} {unit : UnitId} {entry : UnitEntry}
    (hentry : table.get? unit = some entry) (hrated : ¬ StandardEngine.isRated entry = true)
    {rate : String} : table.modify unit (·.rerated base rate) = table :=
  UnitTable.modify_eq_self hentry (if_neg hrated)

/-- The edits of a row write its rate to a unit, or are refused by one that has no rate. -/
theorem applyEdits_eq {unit : UnitId} {entry : UnitEntry}
    (hentry : engine.units.get? unit = some entry) (row : RateRow) (done : RowOutcome) :
    (applyEdits engine base unit row done).2 =
      { engine with units := engine.units.modify unit (·.rerated base row.rate) } := by
  have hedit : Engine.editCurrency engine unit (row.edits base) =
      if StandardEngine.isRated entry then
        some { engine with
          units := engine.units.modify unit ((row.edits base).foldl CurrencyEdit.apply ·) }
      else none := by
    show StandardEngine.editCurrency engine unit (row.edits base) = _
    rw [StandardEngine.editCurrency, hentry]
  rw [applyEdits, hedit]
  by_cases hrated : StandardEngine.isRated entry
  · have hsame : engine.units.modify unit ((row.edits base).foldl CurrencyEdit.apply ·) =
        engine.units.modify unit (·.rerated base row.rate) :=
      UnitTable.modify_congr hentry (entry.foldl_edits base row hrated)
    rw [if_pos hrated, hsame]
  · rw [if_neg hrated, modify_rerated_of_unrated hentry hrated]

/-- A row gives its name a unit and writes its rate to it, where the base is a unit. -/
theorem applyRow_eq (hbase : base.index < engine.units.units.length) (row : RateRow) :
    (applyRow base engine row).2 =
      { engine with units := (engine.units.named base row).rerate base row } := by
  have hresolve : Engine.resolveUnit engine row.name = engine.units.find? row.name := rfl
  rw [applyRow, hresolve]
  cases hfound : engine.units.find? row.name with
  | some unit =>
    obtain ⟨entry, hentry, -⟩ := UnitTable.get?_of_find? hfound
    rw [UnitTable.named_of_find? hfound, UnitTable.rerate, hfound]
    dsimp only
    by_cases hunit : unit = base
    · rw [if_pos hunit, if_pos hunit]
    · rw [if_neg hunit, if_neg hunit]
      have hcurrency : Engine.isCurrencyUnit engine unit = entry.isCurrency := by
        show (engine.units.get? unit).any UnitEntry.isCurrency = _
        rw [hentry]
        rfl
      rw [hcurrency]
      split
      · exact applyEdits_eq hentry row .updated
      · next hnot =>
        have hrated : ¬ StandardEngine.isRated entry = true := fun h =>
          hnot (Bool.and_eq_true_iff.mp h).1
        rw [modify_rerated_of_unrated hentry hrated]
  | none =>
    have hadded := engine.units.get?_add (.ofSpec { name := row.name, base })
      ⟨engine.units.units.length⟩
    rw [if_pos rfl] at hadded
    have hnext : (engine.units.named base row).find? row.name =
        some ⟨engine.units.units.length⟩ := by
      rw [UnitTable.named, hfound, UnitTable.find?_add, if_pos (by simp [UnitEntry.ofSpec])]
    have hother : ¬ (⟨engine.units.units.length⟩ : UnitId) = base := by
      rintro rfl
      exact Nat.lt_irrefl _ hbase
    rw [UnitTable.rerate, hnext]
    dsimp only
    rw [if_neg hother, UnitTable.named, hfound]
    have hnamed : ({ engine with units := (engine.units.add _).2 } : StandardEngine).units.get? _ =
        some _ := hadded
    exact applyEdits_eq hnamed row .created

/-- The table with a unit for every name of a batch. -/
def UnitTable.allNamed (table : UnitTable) (base : UnitId) (rows : List RateRow) : UnitTable :=
  rows.foldl (UnitTable.named base) table

/-- The table with the rates of all rows at the units that their names stand for. -/
def UnitTable.allRerated (table : UnitTable) (base : UnitId) (rows : List RateRow) : UnitTable :=
  rows.foldl (UnitTable.rerate base) table

/-- Names may be added before or after a rate is written to a unit that is there. -/
theorem allNamed_rerate {table : UnitTable} {row : RateRow} {unit : UnitId}
    (hfound : table.find? row.name = some unit) (rows : List RateRow) :
    (table.rerate base row).allNamed base rows = (table.allNamed base rows).rerate base row := by
  induction rows generalizing table with
  | nil => rfl
  | cons other rows ih =>
    rw [UnitTable.allNamed, List.foldl_cons, UnitTable.named_rerate hfound]
    exact ih (UnitTable.find?_named hfound)

/-- A batch comes down to adding a unit for every name first and to writing the rates then. -/
theorem applyRows_eq (hbase : base.index < engine.units.units.length) (rows : List RateRow) :
    (applyRows base engine rows).2 =
      { engine with units := (engine.units.allNamed base rows).allRerated base rows } := by
  induction rows generalizing engine with
  | nil => rfl
  | cons row rows ih =>
    show (applyRows base (applyRow base engine row).2 rows).2 = _
    have hlonger : engine.units.units.length ≤ (engine.units.named base row).units.length := by
      unfold UnitTable.named
      split
      · exact Nat.le_refl _
      · simp [UnitTable.add]
    obtain ⟨unit, hfound⟩ : ∃ unit, (engine.units.named base row).find? row.name = some unit :=
      UnitTable.exists_find?_named
    rw [applyRow_eq hbase, ih (by rw [UnitTable.length_rerate]; omega), allNamed_rerate hfound]
    rfl

/-- Every name that has a unit keeps it while others get theirs. -/
theorem find?_allNamed {table : UnitTable} {name : String} {unit : UnitId}
    (hfound : table.find? name = some unit) (rows : List RateRow) :
    (table.allNamed base rows).find? name = some unit := by
  induction rows generalizing table with
  | nil => exact hfound
  | cons row rows ih => exact ih (UnitTable.find?_named hfound)

/-- After all of them were added, the names of all rows have a unit. -/
theorem exists_find?_allNamed (table : UnitTable) {rows : List RateRow} :
    ∀ row ∈ rows, ∃ unit, (table.allNamed base rows).find? row.name = some unit := by
  induction rows generalizing table with
  | nil => simp
  | cons first rows ih =>
    intro row hrow
    rcases List.mem_cons.mp hrow with rfl | hlater
    · obtain ⟨unit, hfound⟩ : ∃ unit, (table.named base row).find? row.name = some unit :=
        UnitTable.exists_find?_named
      exact ⟨unit, find?_allNamed hfound rows⟩
    · exact ih _ row hlater

/-- Where all names have a unit, none is added. -/
theorem allNamed_eq_self {table : UnitTable} {rows : List RateRow}
    (hfound : ∀ row ∈ rows, ∃ unit, table.find? row.name = some unit) :
    table.allNamed base rows = table := by
  induction rows with
  | nil => rfl
  | cons row rows ih =>
    obtain ⟨unit, hrow⟩ := hfound row List.mem_cons_self
    rw [UnitTable.allNamed, List.foldl_cons, UnitTable.named_of_find? hrow]
    exact ih fun other hother => hfound other (List.mem_cons_of_mem row hother)

/-- Writing rates leaves the units of all names where they are. -/
theorem find?_allRerated (table : UnitTable) (rows : List RateRow) (name : String) :
    (table.allRerated base rows).find? name = table.find? name := by
  induction rows generalizing table with
  | nil => rfl
  | cons row rows ih => exact (ih _).trans (UnitTable.find?_rerate name)

/-- The last of the rows that write to a unit. -/
def UnitTable.lastRow? (table : UnitTable) (base : UnitId) (rows : List RateRow) (unit : UnitId) :
    Option RateRow :=
  (rows.filter fun row => decide (table.find? row.name = some unit ∧ unit ≠ base)).getLast?

/-- A unit with the rate of a row, if there is one. -/
def UnitEntry.reratedBy (entry : UnitEntry) (base : UnitId) : Option RateRow → UnitEntry
  | none => entry
  | some row => entry.rerated base row.rate

/-- Of rates that are written one after another the last one counts. -/
theorem foldl_rerated (entry : UnitEntry) (rows : List RateRow) :
    rows.foldl (fun entry row => entry.rerated base row.rate) entry =
      entry.reratedBy base rows.getLast? := by
  induction rows generalizing entry with
  | nil => rfl
  | cons row rows ih =>
    rw [List.foldl_cons, ih]
    cases rows with
    | nil => rfl
    | cons next others =>
      rw [List.getLast?_cons_cons, List.getLast?_eq_some_getLast (List.cons_ne_nil next others)]
      exact UnitEntry.rerated_rerated ..

/-- After a batch, each unit has the rate of the last row that writes to it. -/
theorem get?_allRerated (table : UnitTable) (rows : List RateRow) (unit : UnitId) :
    (table.allRerated base rows).get? unit =
      (table.get? unit).map (·.reratedBy base (table.lastRow? base rows unit)) := by
  have hall : (table.allRerated base rows).get? unit = (table.get? unit).map fun entry =>
      (rows.filter fun row => decide (table.find? row.name = some unit ∧ unit ≠ base)).foldl
        (fun entry row => entry.rerated base row.rate) entry := by
    induction rows generalizing table with
    | nil => simp [UnitTable.allRerated]
    | cons row rows ih =>
      rw [UnitTable.allRerated, List.foldl_cons]
      refine (ih (table.rerate base row)).trans ?_
      simp only [UnitTable.find?_rerate, UnitTable.get?_rerate, Option.map_map]
      congr 1
      funext entry
      by_cases hrow : table.find? row.name = some unit ∧ unit ≠ base
      · rw [List.filter_cons_of_pos (by simpa using hrow), List.foldl_cons, Function.comp,
          if_pos hrow]
      · rw [List.filter_cons_of_neg (by simpa using hrow), Function.comp, if_neg hrow]
  rw [hall]
  simp only [foldl_rerated]
  rfl

end rows

/-! ## The same rows again -/

/-- All that is known of a unit but its factor. -/
def UnitEntry.withoutFactor (entry : UnitEntry) : UnitEntry :=
  { entry with factor := undefinedValue }

/-- Two tables that differ in their factors at the most. -/
def UnitTable.SameButFactors (table table' : UnitTable) : Prop :=
  ∀ unit, (table.get? unit).map UnitEntry.withoutFactor =
    (table'.get? unit).map UnitEntry.withoutFactor

namespace UnitTable.SameButFactors

variable {table table' : UnitTable}

/-- A unit that differs in its factor at the most is at the same place. -/
theorem exists_get? (hsame : table.SameButFactors table') {unit : UnitId} {entry : UnitEntry}
    (hentry : table.get? unit = some entry) :
    ∃ factor, table'.get? unit = some { entry with factor } := by
  have hunit := hsame unit
  rw [hentry, Option.map_some] at hunit
  obtain ⟨entry', hentry', heq⟩ := Option.map_eq_some_iff.mp hunit.symm
  refine ⟨entry'.factor, ?_⟩
  rw [hentry']
  obtain ⟨⟩ := entry
  obtain ⟨⟩ := entry'
  simp only [UnitEntry.withoutFactor, UnitEntry.mk.injEq] at heq
  simp [heq]

/-- Neither of the tables comes first. -/
theorem symm (hsame : table.SameButFactors table') : table'.SameButFactors table :=
  fun unit => (hsame unit).symm

/-- Names stand for the same units. -/
theorem find?_eq (hsame : table.SameButFactors table') (name : String) :
    table.find? name = table'.find? name := by
  refine UnitTable.find?_congr (List.ext_getElem? fun i => ?_) name
  have hunit := congrArg (Option.map UnitEntry.names) (hsame ⟨i⟩)
  rw [Option.map_map, Option.map_map] at hunit
  rw [List.getElem?_map, List.getElem?_map]
  exact hunit

end UnitTable.SameButFactors

/-- A unit that has its rate, whatever its factor, is left alone when the rate is written again. -/
theorem rerated_of_rerated {entry entry' : UnitEntry} {base : UnitId} {rate : String}
    {factor : Float} (hentry : entry' = { entry.rerated base rate with factor }) :
    entry'.rerated base rate = entry' := by
  by_cases hrated : StandardEngine.isRated entry
  · have hcurrency : entry.isCurrency = true := (Bool.and_eq_true_iff.mp hrated).1
    rw [UnitEntry.rerated, if_pos hrated] at hentry
    have hrated' : StandardEngine.isRated entry' = true := by
      rw [hentry]
      exact Bool.and_eq_true_iff.mpr ⟨hcurrency, rfl⟩
    rw [UnitEntry.rerated, if_pos hrated', hentry]
  · have hrated' : ¬ StandardEngine.isRated entry' = true := by
      rw [hentry, UnitEntry.rerated, if_neg hrated]
      exact hrated
    rw [UnitEntry.rerated, if_neg hrated']

/-- Rows that were applied change nothing when they are applied again, even if the factors were
evaluated in between. -/
theorem applyRows_again {base : UnitId} {engine engine' : StandardEngine} {name : String}
    (hbase : engine.units.find? name = some base) {rows : List RateRow}
    (hsame : (applyRows base engine rows).2.units.SameButFactors engine'.units) :
    (applyRows base engine' rows).2 = engine' := by
  rw [applyRows_eq (UnitTable.index_lt_of_find? hbase)] at hsame
  have hfind (label : String) :
      engine'.units.find? label = (engine.units.allNamed base rows).find? label :=
    (hsame.find?_eq label).symm.trans (find?_allRerated _ rows label)
  have hnamed : engine'.units.allNamed base rows = engine'.units :=
    allNamed_eq_self fun row hrow => by
      rw [hfind]
      exact exists_find?_allNamed engine.units row hrow
  have hbase' : engine'.units.find? name = some base :=
    (hfind name).trans (find?_allNamed hbase rows)
  have hrerated : engine'.units.allRerated base rows = engine'.units := by
    apply UnitTable.ext_get?
    intro unit
    rw [get?_allRerated]
    cases hentry' : engine'.units.get? unit with
    | none => rfl
    | some entry' =>
      have hlast : engine'.units.lastRow? base rows unit =
          (engine.units.allNamed base rows).lastRow? base rows unit := by
        simp only [UnitTable.lastRow?, hfind]
      obtain ⟨factor, hentry⟩ := hsame.symm.exists_get? hentry'
      rw [get?_allRerated] at hentry
      obtain ⟨entry, -, heq⟩ := Option.map_eq_some_iff.mp hentry
      rw [Option.map_some, hlast]
      cases hrow : (engine.units.allNamed base rows).lastRow? base rows unit with
      | none => rfl
      | some row =>
        rw [hrow] at heq
        have hrated : entry.rerated base row.rate = { entry' with factor } := heq
        have hwritten : entry' = { entry.rerated base row.rate with factor := entry'.factor } := by
          rw [hrated]
        exact congrArg some (rerated_of_rerated hwritten)
  rw [applyRows_eq (UnitTable.index_lt_of_find? hbase'), hnamed, hrerated]

end Reckoner
