import Reckoner.Proofs.Rates.Stored

/-!
# What operations leave of the units

An engine adds units, changes currencies and evaluates their rates again, in any order, with any
specifications and any bases, also such that no unit has and such that go round in circles. This
file proves what all of that leaves alone: a unit stays where it is with what it is called, and only
a currency with a base can be changed at all. So the roots and the physical units stay as they are,
and with them the anchor, which is a root in any engine that there can be.
-/

namespace Reckoner

/-! ## Operations -/

/-- What an engine can be asked for that may change it. -/
inductive EngineOperation where
  | clearMessages
  | evaluateAndFormat (clock : Clock) (settings : Settings) (budget : Nat) (text : String)
      (plot : PlotSlot)
  | nextMessage
  | createAlias (spec : AliasSpec)
  | editCurrency (unit : UnitId) (edits : List CurrencyEdit)
  | setStaleWarning (enabled : Bool)
  | reloadCurrencies (clock : Clock)

namespace Engine

variable {σ : Type} [Engine σ]

/-- The engine after an operation. Where a change to a unit is refused it is as before. -/
def perform (engine : σ) : EngineOperation → σ
  | .clearMessages => clearMessages engine
  | .evaluateAndFormat clock settings budget text plot =>
      (evaluateAndFormat engine clock settings budget text plot).engine
  | .nextMessage => (nextMessage engine).2
  | .createAlias spec => (createAlias engine spec).2
  | .editCurrency unit edits => (editCurrency engine unit edits).getD engine
  | .setStaleWarning enabled => setStaleWarning engine enabled
  | .reloadCurrencies clock => reloadCurrencies engine clock

/-- The engine after some operations, one after another. -/
def afterOperations (engine : σ) (operations : List EngineOperation) : σ :=
  operations.foldl perform engine

end Engine

/-! ## Units that are left alone -/

open StandardEngine

/-- A unit is called as before and is as much of a currency; it can be changed if it could be before,
and if not it is the same. -/
structure UnitEntry.Keeps (before after : UnitEntry) : Prop where
  names_eq : after.names = before.names
  category_eq : after.category = before.category
  title_eq : after.title = before.title
  singular_eq : after.singular = before.singular
  plural_eq : after.plural = before.plural
  isCurrency_eq : after.isCurrency = before.isCurrency
  isRated_eq : isRated after = isRated before
  eq_of_not_isRated : isRated before = false → after = before

namespace UnitEntry.Keeps

variable {a b c : UnitEntry}

theorem refl (entry : UnitEntry) : entry.Keeps entry :=
  ⟨rfl, rfl, rfl, rfl, rfl, rfl, rfl, fun _ => rfl⟩

theorem trans (hab : a.Keeps b) (hbc : b.Keeps c) : a.Keeps c where
  names_eq := hbc.names_eq.trans hab.names_eq
  category_eq := hbc.category_eq.trans hab.category_eq
  title_eq := hbc.title_eq.trans hab.title_eq
  singular_eq := hbc.singular_eq.trans hab.singular_eq
  plural_eq := hbc.plural_eq.trans hab.plural_eq
  isCurrency_eq := hbc.isCurrency_eq.trans hab.isCurrency_eq
  isRated_eq := hbc.isRated_eq.trans hab.isRated_eq
  eq_of_not_isRated hnot :=
    (hbc.eq_of_not_isRated (hab.isRated_eq.trans hnot)).trans (hab.eq_of_not_isRated hnot)

/-- What is no currency or has no base stays as it is. -/
theorem eq_of_fixed (hab : a.Keeps b) (hfixed : a.isCurrency = false ∨ a.base = none) : b = a := by
  apply hab.eq_of_not_isRated
  rcases hfixed with hother | hroot
  · rw [isRated, hother, Bool.false_and]
  · rw [isRated, hroot, Option.isSome_none, Bool.and_false]

/-- Any change to the conversion of a currency with a base leaves it one. -/
theorem edit (hrated : isRated a = true) (edit : CurrencyEdit) : a.Keeps (edit.apply a) := by
  have hfixed {b : UnitEntry} : isRated a = false → b = a := fun hnot => by
    cases hrated.symm.trans hnot
  cases edit with
  | base target =>
    have hcurrency := (Bool.and_eq_true_iff.mp hrated).1
    refine ⟨rfl, rfl, rfl, rfl, rfl, rfl, ?_, hfixed⟩
    rw [hrated]
    exact Bool.and_eq_true_iff.mpr ⟨hcurrency, rfl⟩
  | expression text =>
    rw [CurrencyEdit.apply]
    split
    · exact refl a
    · exact ⟨rfl, rfl, rfl, rfl, rfl, rfl, rfl, hfixed⟩
  | approximate mark => exact ⟨rfl, rfl, rfl, rfl, rfl, rfl, rfl, hfixed⟩
  | precision exponent => exact ⟨rfl, rfl, rfl, rfl, rfl, rfl, rfl, hfixed⟩
  | changed mark => exact ⟨rfl, rfl, rfl, rfl, rfl, rfl, rfl, hfixed⟩

/-- So do any number of changes. -/
theorem edits (hrated : isRated a = true) (edits : List CurrencyEdit) :
    a.Keeps (edits.foldl CurrencyEdit.apply a) := by
  induction edits generalizing a with
  | nil => exact refl a
  | cons first others ih =>
    have hfirst := edit hrated first
    exact hfirst.trans (ih (hfirst.isRated_eq.trans hrated))

/-- The factor of a currency with a base can be set. -/
theorem factor (hrated : isRated a = true) (value : Float) : a.Keeps { a with factor := value } :=
  ⟨rfl, rfl, rfl, rfl, rfl, rfl, rfl, fun hnot => by cases hrated.symm.trans hnot⟩

end UnitEntry.Keeps

namespace UnitTable

/-- The units of a table are still at their places in another one. -/
def Keeps (before after : UnitTable) : Prop :=
  ∀ unit entry, before.get? unit = some entry →
    ∃ entry', after.get? unit = some entry' ∧ entry.Keeps entry'

variable {a b c : UnitTable}

theorem Keeps.refl (table : UnitTable) : table.Keeps table :=
  fun _ entry hentry => ⟨entry, hentry, .refl entry⟩

theorem Keeps.trans (hab : a.Keeps b) (hbc : b.Keeps c) : a.Keeps c := by
  intro unit entry hentry
  obtain ⟨entry', hentry', hkept⟩ := hab unit entry hentry
  obtain ⟨entry'', hentry'', hkept'⟩ := hbc unit entry' hentry'
  exact ⟨entry'', hentry'', hkept.trans hkept'⟩

/-- A table is kept if each unit is changed to one that keeps it. -/
theorem keeps_of_map (change : UnitId → UnitEntry → UnitEntry)
    (hget : ∀ unit, b.get? unit = (a.get? unit).map (change unit))
    (hchange : ∀ unit entry, a.get? unit = some entry → entry.Keeps (change unit entry)) :
    a.Keeps b := by
  intro unit entry hentry
  refine ⟨change unit entry, ?_, hchange unit entry hentry⟩
  rw [hget, hentry, Option.map_some]

/-- A unit that is added is found at its place. -/
theorem get?_add_self (table : UnitTable) (entry : UnitEntry) :
    (table.add entry).2.get? (table.add entry).1 = some entry := by
  rw [get?_add]
  exact if_pos rfl

/-- A unit that is added leaves the others at their places. -/
theorem keeps_add (table : UnitTable) (entry : UnitEntry) : table.Keeps (table.add entry).2 := by
  intro unit earlier hearlier
  have hlt : unit.index < table.units.length := (List.getElem?_eq_some_iff.mp hearlier).1
  refine ⟨earlier, ?_, .refl earlier⟩
  rw [table.get?_add, if_neg (Nat.ne_of_lt hlt), hearlier]

end UnitTable

/-! ## The standard engine -/

namespace StandardEngine

/-- An engine keeps the anchor and the units of another. -/
structure Keeps (before after : StandardEngine) : Prop where
  anchor_eq : after.anchor = before.anchor
  units : before.units.Keeps after.units

theorem Keeps.refl (engine : StandardEngine) : engine.Keeps engine :=
  ⟨rfl, .refl _⟩

theorem Keeps.trans {a b c : StandardEngine} (hab : a.Keeps b) (hbc : b.Keeps c) : a.Keeps c :=
  ⟨hbc.anchor_eq.trans hab.anchor_eq, hab.units.trans hbc.units⟩

/-- Engines that differ in their messages alone have the same units. -/
theorem SameDefinitions.keeps {a b : StandardEngine} (hab : a.SameDefinitions b) : a.Keeps b := by
  obtain ⟨_, rfl⟩ := hab
  exact ⟨rfl, .refl _⟩

/-- Changes are made to a currency with a base, or refused. -/
theorem keeps_editCurrency (engine : StandardEngine) (unit : UnitId) (edits : List CurrencyEdit) :
    engine.Keeps ((engine.editCurrency unit edits).getD engine) := by
  unfold editCurrency
  split
  · exact .refl engine
  · next entry hentry =>
    split
    · next hrated =>
      refine ⟨rfl, UnitTable.keeps_of_map _ (fun place => engine.units.get?_modify unit place _) ?_⟩
      intro place entry' hentry'
      split
      · next hplace =>
        obtain rfl := Option.some.inj (hentry.symm.trans (hplace ▸ hentry'))
        exact .edits hrated edits
      · exact .refl entry'
    · exact .refl engine

/-- A reload sets the factors of currencies with a base. -/
theorem keeps_reloadCurrencies (engine : StandardEngine) (clock : Clock) :
    engine.Keeps (engine.reloadCurrencies clock) := by
  refine ⟨rfl, UnitTable.keeps_of_map _ (fun unit => engine.get?_reloadCurrencies clock unit) ?_⟩
  intro unit entry _
  split
  · next hrated => exact .factor hrated _
  · exact .refl entry

/-- Each operation keeps the units. -/
theorem keeps_perform (engine : StandardEngine) (operation : EngineOperation) :
    engine.Keeps (Engine.perform engine operation) := by
  cases operation with
  | clearMessages => exact (sameDefinitions_clearMessages engine).keeps
  | evaluateAndFormat clock settings budget text plot =>
    exact (sameDefinitions_evaluateAndFormat engine clock settings budget text plot).keeps
  | nextMessage => exact (sameDefinitions_nextMessage engine).keeps
  | createAlias spec => exact ⟨rfl, engine.units.keeps_add _⟩
  | editCurrency unit edits => exact keeps_editCurrency engine unit edits
  | setStaleWarning enabled => exact ⟨rfl, .refl _⟩
  | reloadCurrencies clock => exact keeps_reloadCurrencies engine clock

/-- Any sequence of operations keeps the units. -/
theorem keeps_afterOperations (engine : StandardEngine) (operations : List EngineOperation) :
    engine.Keeps (Engine.afterOperations engine operations) := by
  induction operations generalizing engine with
  | nil => exact .refl engine
  | cons first others ih => exact (keeps_perform engine first).trans (ih (Engine.perform engine first))

/-! ## The anchor -/

/-- The engines that there can be. They begin without definitions; from then on these are loaded,
the time of the last refresh is set, and operations are asked for, in any order. -/
inductive Made : StandardEngine → Prop where
  | empty : Made {}
  | load {engine : StandardEngine} : Made engine → Made engine.load
  | dated {engine : StandardEngine} (time : Option Int) :
      Made engine → Made { engine with ratesRefreshedAt := time }
  | asked {engine : StandardEngine} (operation : EngineOperation) :
      Made engine → Made (Engine.perform engine operation)

/-- The standard anchor is the last of the standard units, and a root. -/
theorem get?_addStandardUnits (table : UnitTable) :
    (addStandardUnits table).2.get? (addStandardUnits table).1 = some .euro :=
  UnitTable.get?_add_self _ _

/-- The anchor of an engine is a root. -/
theorem Made.anchor_isRoot {engine : StandardEngine} {anchor : UnitId} (hmade : Made engine)
    (hanchor : engine.anchor = some anchor) :
    ∃ entry, engine.units.get? anchor = some entry ∧ entry.base = none := by
  induction hmade with
  | empty => cases hanchor
  | @load engine _ ih =>
    unfold StandardEngine.load at hanchor ⊢
    split at hanchor
    · next hloaded =>
      rw [if_pos hloaded]
      exact ih hanchor
    · next hloaded =>
      rw [if_neg hloaded]
      obtain rfl := Option.some.inj hanchor
      exact ⟨.euro, get?_addStandardUnits engine.units, rfl⟩
  | dated time _ ih => exact ih hanchor
  | @asked engine operation _ ih =>
    have hkept := keeps_perform engine operation
    obtain ⟨entry, hentry, hroot⟩ := ih (hkept.anchor_eq.symm.trans hanchor)
    obtain ⟨entry', hentry', hentries⟩ := hkept.units anchor entry hentry
    obtain rfl := hentries.eq_of_fixed (.inr hroot)
    exact ⟨entry', hentry', hroot⟩

/-- Whatever an engine is asked for, each unit that was there stays at its place with its names, its
category, its title and its other forms, as a currency or as none. Whether it can be changed never
changes, and a unit that is no currency or has no base stays as it is in all its fields, the base
and the factor among them. In any engine that there can be, the anchor is such a unit, and it stays
the anchor. -/
theorem afterOperations_frame (engine : StandardEngine) (operations : List EngineOperation) :
    let after := Engine.afterOperations engine operations
    (∀ unit entry, engine.units.get? unit = some entry →
      ∃ entry', after.units.get? unit = some entry' ∧
        entry'.names = entry.names ∧ entry'.category = entry.category ∧
        entry'.title = entry.title ∧ entry'.singular = entry.singular ∧
        entry'.plural = entry.plural ∧ entry'.isCurrency = entry.isCurrency ∧
        isRated entry' = isRated entry ∧
        (entry.isCurrency = false ∨ entry.base = none → entry' = entry)) ∧
    after.anchor = engine.anchor ∧
    (Made engine → ∀ anchor, engine.anchor = some anchor →
      ∃ entry, engine.units.get? anchor = some entry ∧ entry.base = none ∧
        after.units.get? anchor = some entry) := by
  intro after
  obtain ⟨hanchor, hunits⟩ := keeps_afterOperations engine operations
  refine ⟨fun unit entry hentry => ?_, hanchor, fun hmade anchor hat => ?_⟩
  · obtain ⟨entry', hentry', hkept⟩ := hunits unit entry hentry
    exact ⟨entry', hentry', hkept.names_eq, hkept.category_eq, hkept.title_eq, hkept.singular_eq,
      hkept.plural_eq, hkept.isCurrency_eq, hkept.isRated_eq, hkept.eq_of_fixed⟩
  · obtain ⟨entry, hentry, hroot⟩ := hmade.anchor_isRoot hat
    obtain ⟨entry', hentry', hkept⟩ := hunits anchor entry hentry
    obtain rfl := hkept.eq_of_fixed (.inr hroot)
    exact ⟨entry', hentry, hroot, hentry'⟩

/-- A currency is added with a base that no unit has, then made a multiple of itself. Changing the
anchor in the same way is refused. -/
theorem afterOperations_frame_euro :
    let operations : List EngineOperation :=
      [.createAlias { name := "USD", base := ⟨99⟩ },
        .editCurrency ⟨5⟩ [.base ⟨5⟩, .expression "2"], .editCurrency ⟨4⟩ [.base ⟨5⟩],
        .reloadCurrencies (.metered 0 1),
        .evaluateAndFormat (.metered 0 1) {} 500 "5 USD" .empty]
    let after := Engine.afterOperations withDefinitions operations
    withDefinitions.units.get? ⟨4⟩ = some .euro ∧ UnitEntry.euro.base = none ∧
      Made withDefinitions ∧ withDefinitions.anchor = some ⟨4⟩ ∧
      after.anchor = some ⟨4⟩ ∧ after.units.get? ⟨4⟩ = some .euro ∧
      (after.units.get? ⟨5⟩).map UnitEntry.base = some (some ⟨5⟩) := by
  intro operations after
  have heuro : withDefinitions.units.get? ⟨4⟩ = some .euro := rfl
  have hroot : UnitEntry.euro.base = none := rfl
  have hmade : Made withDefinitions := .load .empty
  have hanchor : withDefinitions.anchor = some ⟨4⟩ := rfl
  obtain ⟨hunits, hkept, hstays⟩ := afterOperations_frame withDefinitions operations
  obtain ⟨entry, hentry, -, -, -, -, -, -, -, hfixed⟩ := hunits ⟨4⟩ .euro heuro
  obtain rfl := hfixed (.inr hroot)
  obtain ⟨_, hbefore, -, hafter⟩ := hstays hmade ⟨4⟩ hanchor
  obtain rfl := Option.some.inj (heuro.symm.trans hbefore)
  exact ⟨heuro, hroot, hmade, hanchor, hkept.trans hanchor, hafter, by decide +kernel⟩

end StandardEngine

end Reckoner
