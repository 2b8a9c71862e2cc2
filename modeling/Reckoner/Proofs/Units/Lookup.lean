import Reckoner.UnitTable

/-!
# Looking up units

A unit is found by its place or by its name. This file says what both find after a unit was changed
and after one was added.
-/

namespace Reckoner

/-- The place of the last match depends on what the test reads of the elements only. -/
theorem lastIndex?_map {α β : Type} (f : α → β) (test : β → Bool) (items : List α) :
    lastIndex? test (items.map f) = lastIndex? (fun item => test (f item)) items := by
  induction items with
  | nil => rfl
  | cons first rest ih => rw [List.map_cons, lastIndex?, lastIndex?, ih]

/-- An element at the end is found before all others. -/
theorem lastIndex?_concat {α : Type} (test : α → Bool) (items : List α) (last : α) :
    lastIndex? test (items ++ [last]) =
      if test last then some items.length else lastIndex? test items := by
  induction items with
  | nil => rfl
  | cons first rest ih =>
    rw [List.cons_append, lastIndex?, ih, lastIndex?]
    by_cases htest : test last
    · rw [if_pos htest, if_pos htest]
      rfl
    · rw [if_neg htest, if_neg htest]

/-- What is found is there and passes the test. -/
theorem getElem?_of_lastIndex? {α : Type} {test : α → Bool} {items : List α} {i : Nat}
    (hfound : lastIndex? test items = some i) :
    ∃ item, items[i]? = some item ∧ test item = true := by
  induction items generalizing i with
  | nil => cases hfound
  | cons first rest ih =>
    rw [lastIndex?] at hfound
    split at hfound
    · next j hrest =>
      obtain rfl := Option.some.inj hfound
      exact ih hrest
    · split at hfound
      · next htest =>
        obtain rfl := Option.some.inj hfound
        exact ⟨first, rfl, htest⟩
      · cases hfound

namespace UnitTable

variable {table table' : UnitTable}

/-- Tables with the same units at all places are the same. -/
theorem ext_get? (h : ∀ unit, table.get? unit = table'.get? unit) : table = table' := by
  have hunits : table.units = table'.units := List.ext_getElem? fun i => h ⟨i⟩
  obtain ⟨units⟩ := table
  exact congrArg UnitTable.mk hunits

/-- The entries are the units at all places. -/
theorem mem_entries {pair : UnitId × UnitEntry} :
    pair ∈ table.entries ↔ table.get? pair.1 = some pair.2 := by
  obtain ⟨⟨i⟩, entry⟩ := pair
  constructor
  · intro hmem
    obtain ⟨⟨entry', j⟩, hplace, heq⟩ := List.mem_map.mp hmem
    obtain ⟨hunit, rfl⟩ := Prod.mk.inj heq
    obtain rfl := congrArg UnitId.index hunit
    exact List.mk_mem_zipIdx_iff_getElem?.mp hplace
  · intro hentry
    exact List.mem_map.mpr ⟨(entry, i), List.mk_mem_zipIdx_iff_getElem?.mpr hentry, rfl⟩

/-- A change affects the unit at its place only. -/
theorem get?_modify (table : UnitTable) (place unit : UnitId) (change : UnitEntry → UnitEntry) :
    (table.modify place change).get? unit =
      (table.get? unit).map fun entry => if unit = place then change entry else entry := by
  obtain ⟨i⟩ := unit
  obtain ⟨j⟩ := place
  rw [get?, modify, List.getElem?_modify, get?]
  by_cases hij : j = i
  · simp [hij]
  · have hne : ¬ (⟨i⟩ : UnitId) = ⟨j⟩ := fun h => hij (congrArg UnitId.index h).symm
    simp [hij, hne]

/-- Changes that agree on the unit at a place come to the same. -/
theorem modify_congr {place : UnitId} {entry : UnitEntry} (hentry : table.get? place = some entry)
    {change change' : UnitEntry → UnitEntry} (hsame : change entry = change' entry) :
    table.modify place change = table.modify place change' := by
  apply ext_get?
  intro unit
  rw [get?_modify, get?_modify]
  by_cases hunit : unit = place
  · rw [hunit, hentry, Option.map_some, Option.map_some, if_pos rfl, if_pos rfl, hsame]
  · simp only [if_neg hunit]

/-- A change that leaves the unit at a place as it is does nothing. -/
theorem modify_eq_self {place : UnitId} {entry : UnitEntry} (hentry : table.get? place = some entry)
    {change : UnitEntry → UnitEntry} (hsame : change entry = entry) :
    table.modify place change = table := by
  have hid : table.modify place change = table.modify place id := modify_congr hentry hsame
  rw [hid]
  apply ext_get?
  intro unit
  rw [get?_modify]
  simp

/-- A unit that is added comes after all others. -/
theorem get?_add (table : UnitTable) (entry : UnitEntry) (unit : UnitId) :
    (table.add entry).2.get? unit =
      if unit.index = table.units.length then some entry else table.get? unit := by
  rw [add, get?, get?]
  split
  · next hlast => rw [hlast, List.getElem?_concat_length]
  · next hother =>
    by_cases hlt : unit.index < table.units.length
    · rw [List.getElem?_append_left hlt]
    · rw [List.getElem?_eq_none (by simp; omega), List.getElem?_eq_none (by omega)]

/-- A unit that is found is in the table under that name. -/
theorem get?_of_find? {name : String} {unit : UnitId} (hfound : table.find? name = some unit) :
    ∃ entry, table.get? unit = some entry ∧ entry.names.contains name = true := by
  obtain ⟨i, hi, rfl⟩ := Option.map_eq_some_iff.mp hfound
  exact getElem?_of_lastIndex? hi

/-- A unit that is found has a place in the table. -/
theorem index_lt_of_find? {name : String} {unit : UnitId} (hfound : table.find? name = some unit) :
    unit.index < table.units.length := by
  obtain ⟨entry, hentry, -⟩ := get?_of_find? hfound
  exact (List.getElem?_eq_some_iff.mp hentry).1

/-- The unit of a name depends on the names of the units only. -/
theorem find?_congr (hnames : table.units.map UnitEntry.names = table'.units.map UnitEntry.names)
    (name : String) : table.find? name = table'.find? name := by
  have hfind := lastIndex?_map UnitEntry.names (fun names => names.contains name)
  rw [find?, find?, ← hfind, ← hfind, hnames]

/-- A name that has a unit keeps it when a unit without that name is added. -/
theorem find?_add (table : UnitTable) (entry : UnitEntry) (name : String) :
    (table.add entry).2.find? name =
      if entry.names.contains name then some ⟨table.units.length⟩ else table.find? name := by
  rw [find?, add, lastIndex?_concat, find?]
  split <;> rfl

/-- A change of what units hold leaves their names alone. -/
theorem names_modify (table : UnitTable) (place : UnitId) {change : UnitEntry → UnitEntry}
    (hchange : ∀ entry, (change entry).names = entry.names) :
    (table.modify place change).units.map UnitEntry.names = table.units.map UnitEntry.names := by
  apply List.ext_getElem?
  intro i
  have hget := table.get?_modify place ⟨i⟩ change
  rw [get?, get?] at hget
  rw [List.getElem?_map, List.getElem?_map, hget, Option.map_map]
  congr 1
  funext entry
  show (if _ then _ else _ : UnitEntry).names = _
  split
  · exact hchange entry
  · rfl

end UnitTable

end Reckoner
