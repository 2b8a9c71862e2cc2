import Reckoner.UnitTable

/-!
# The root that a unit leads to

A conversion follows the base of a unit, then the base of that one, and so on until a unit without a
base. Bases may be set to any places, so the way may also end at a place without a unit or go round
in circles. This file says which units the bases lead to and proves that a conversion succeeds just
when they lead to a root soon enough and through finite factors, of which it gives the product.
-/

namespace Reckoner.UnitTable

variable {table : UnitTable} {unit base place last root : UnitId}
  {factors others round : List Float}

/-- The bases lead from a unit to a place through units with the given factors, the first of which
is that of the unit itself. There need not be a unit at the place. -/
inductive Leads (table : UnitTable) : UnitId → List Float → UnitId → Prop where
  | here (unit : UnitId) : Leads table unit [] unit
  | link {unit base last : UnitId} {entry : UnitEntry} {factors : List Float}
      (hentry : table.get? unit = some entry) (hbase : entry.base = some base)
      (hrest : Leads table base factors last) : Leads table unit (entry.factor :: factors) last

/-- A place with a unit that has no base. -/
def IsRoot (table : UnitTable) (unit : UnitId) : Prop :=
  ∃ entry, table.get? unit = some entry ∧ entry.base = none

/-- The bases lead from a unit to a root in fewer steps than units are visited, and every factor on
the way is finite. -/
structure Converts (table : UnitTable) (visits : Nat) (unit : UnitId) (factors : List Float)
    (root : UnitId) : Prop where
  leads : table.Leads unit factors root
  isRoot : table.IsRoot root
  length_lt : factors.length < visits
  isFinite : ∀ factor ∈ factors, factor.isFinite = true

/-- From a place without a unit no root is reached. -/
theorem not_converts {visits : Nat} (hentry : table.get? unit = none) :
    ¬ table.Converts visits unit factors root := by
  rintro ⟨hleads, ⟨entry, hroot, -⟩, -, -⟩
  cases hleads with
  | here => cases hentry.symm.trans hroot
  | link hentry' => cases hentry.symm.trans hentry'

/-- A root leads to itself alone. -/
theorem converts_root_iff {visits : Nat} {entry : UnitEntry} (hentry : table.get? unit = some entry)
    (hbase : entry.base = none) :
    table.Converts (visits + 1) unit factors root ↔ root = unit ∧ factors = [] := by
  constructor
  · rintro ⟨hleads, -, -, -⟩
    cases hleads with
    | here => exact ⟨rfl, rfl⟩
    | link hentry' hbase' =>
      obtain rfl := Option.some.inj (hentry.symm.trans hentry')
      cases hbase.symm.trans hbase'
  · rintro ⟨rfl, rfl⟩
    exact ⟨.here root, ⟨entry, hentry, hbase⟩, visits.succ_pos, List.forall_mem_nil _⟩

/-- A unit with a base leads to a root just when its base does, in one step more. -/
theorem converts_base_iff {visits : Nat} {entry : UnitEntry} (hentry : table.get? unit = some entry)
    (hbase : entry.base = some base) :
    table.Converts (visits + 1) unit factors root ↔
      entry.factor.isFinite = true ∧
        ∃ others, factors = entry.factor :: others ∧ table.Converts visits base others root := by
  constructor
  · rintro ⟨hleads, hroot, hlength, hfinite⟩
    cases hleads with
    | here =>
      obtain ⟨entry', hentry', hnone⟩ := hroot
      obtain rfl := Option.some.inj (hentry.symm.trans hentry')
      cases hbase.symm.trans hnone
    | @link _ base' _ entry' others hentry' hbase' hrest =>
      obtain rfl := Option.some.inj (hentry.symm.trans hentry')
      obtain rfl := Option.some.inj (hbase.symm.trans hbase')
      rw [List.length_cons] at hlength
      rw [List.forall_mem_cons] at hfinite
      exact ⟨hfinite.1, others, rfl, hrest, hroot, by omega, hfinite.2⟩
  · rintro ⟨hfactor, others, rfl, hleads, hroot, hlength, hfinite⟩
    refine ⟨.link hentry hbase hleads, hroot, ?_, List.forall_mem_cons.mpr ⟨hfactor, hfinite⟩⟩
    rw [List.length_cons]
    omega

/-- Following the bases finds the root to which they lead within the visits that are left, and
multiplies the factors on the way in their order. -/
theorem rootFrom_eq_some_iff {visits : Nat} {start factor : Float} :
    table.rootFrom visits unit start = some (root, factor) ↔
      ∃ factors, table.Converts visits unit factors root ∧
        factor = factors.foldl (· * ·) start := by
  induction visits generalizing unit start with
  | zero =>
    constructor
    · intro hfound
      cases hfound
    · rintro ⟨factors, hconverts, -⟩
      exact absurd hconverts.length_lt (Nat.not_lt_zero _)
  | succ visits ih =>
    cases hentry : table.get? unit with
    | none => simp [rootFrom, hentry, not_converts hentry]
    | some entry =>
      cases hbase : entry.base with
      | none =>
        simp only [rootFrom, hentry, hbase, converts_root_iff hentry hbase]
        constructor
        · intro hfound
          obtain ⟨rfl, rfl⟩ := Prod.mk.inj (Option.some.inj hfound)
          exact ⟨[], ⟨rfl, rfl⟩, rfl⟩
        · rintro ⟨factors, ⟨rfl, rfl⟩, rfl⟩
          rfl
      | some base =>
        simp only [rootFrom, hentry, hbase, converts_base_iff hentry hbase]
        by_cases hfinite : entry.factor.isFinite = true
        · rw [if_pos hfinite, ih]
          constructor
          · rintro ⟨others, hconverts, hfactor⟩
            exact ⟨_, ⟨hfinite, others, rfl, hconverts⟩, hfactor⟩
          · rintro ⟨_, ⟨-, others, rfl, hconverts⟩, hfactor⟩
            exact ⟨others, hconverts, hfactor⟩
        · rw [if_neg hfinite]
          constructor
          · intro hfound
            cases hfound
          · rintro ⟨factors, ⟨hfinite', -⟩, -⟩
            exact absurd hfinite' hfinite

/-- Wherever the bases lead from a unit, they lead on from there to the root of the unit. -/
theorem Leads.to_root (hplace : table.Leads unit others place)
    (hleads : table.Leads unit factors root) (hroot : table.IsRoot root) :
    ∃ rest, factors = others ++ rest ∧ table.Leads place rest root := by
  induction hplace generalizing factors with
  | here => exact ⟨factors, rfl, hleads⟩
  | @link _ _ _ entry others hentry hbase _ ih =>
    cases hleads with
    | here =>
      obtain ⟨entry', hentry', hnone⟩ := hroot
      obtain rfl := Option.some.inj (hentry.symm.trans hentry')
      cases hbase.symm.trans hnone
    | link hentry' hbase' hrest =>
      obtain rfl := Option.some.inj (hentry.symm.trans hentry')
      obtain rfl := Option.some.inj (hbase.symm.trans hbase')
      obtain ⟨rest, rfl, hlast⟩ := ih hrest
      exact ⟨rest, rfl, hlast⟩

/-- The way to a root passes no place without a unit. -/
theorem Leads.get?_ne_none (hplace : table.Leads unit others place)
    (hleads : table.Leads unit factors root) (hroot : table.IsRoot root) :
    table.get? place ≠ none := by
  intro hnone
  obtain ⟨rest, -, hlast⟩ := hplace.to_root hleads hroot
  cases hlast with
  | here =>
    obtain ⟨entry, hentry, -⟩ := hroot
    cases hnone.symm.trans hentry
  | link hentry => cases hnone.symm.trans hentry

/-- The way to a root comes to no place twice. -/
theorem Leads.round_eq_nil (hplace : table.Leads unit others place)
    (hround : table.Leads place round place) (hleads : table.Leads unit factors root)
    (hroot : table.IsRoot root) : round = [] := by
  obtain ⟨rest, -, hrest⟩ := hplace.to_root hleads hroot
  -- What is left after the round is all that was left before it.
  obtain ⟨after, hafter, hlast⟩ := hround.to_root hrest hroot
  obtain ⟨more, hmore, -⟩ := hrest.to_root hlast hroot
  have hlength := congrArg List.length hafter
  have hlength' := congrArg List.length hmore
  rw [List.length_append] at hlength hlength'
  apply List.eq_nil_of_length_eq_zero
  omega

/-- A unit has a root just when its bases lead to one in at most fifteen steps, through units of the
table with finite factors, and then so many of the root make one of it as the product of these
factors says, taken from one on in their order. In all other cases there is none: so when the bases
lead to a place without a unit, and when they come back to a place where they were. -/
theorem toRoot?_follows_bases (table : UnitTable) (unit : UnitId) :
    (∀ root factor, table.toRoot? unit = some (root, factor) ↔
      ∃ factors, table.Leads unit factors root ∧ table.IsRoot root ∧ factors.length ≤ 15 ∧
        (∀ f ∈ factors, f.isFinite = true) ∧ factor = factors.foldl (· * ·) 1.0) ∧
    (table.toRoot? unit = none ↔
      ¬ ∃ factors root, table.Leads unit factors root ∧ table.IsRoot root ∧
        factors.length ≤ 15 ∧ ∀ f ∈ factors, f.isFinite = true) ∧
    (∀ factors place, table.Leads unit factors place → table.get? place = none →
      table.toRoot? unit = none) ∧
    ∀ factors place round, table.Leads unit factors place → table.Leads place round place →
      round ≠ [] → table.toRoot? unit = none := by
  have hsome : ∀ root factor, table.toRoot? unit = some (root, factor) ↔
      ∃ factors, table.Leads unit factors root ∧ table.IsRoot root ∧ factors.length ≤ 15 ∧
        (∀ f ∈ factors, f.isFinite = true) ∧ factor = factors.foldl (· * ·) 1.0 := by
    intro root factor
    rw [toRoot?, rootFrom_eq_some_iff]
    constructor
    · rintro ⟨factors, ⟨hleads, hroot, hlength, hfinite⟩, hfactor⟩
      exact ⟨factors, hleads, hroot, Nat.le_of_lt_succ hlength, hfinite, hfactor⟩
    · rintro ⟨factors, hleads, hroot, hlength, hfinite, hfactor⟩
      exact ⟨factors, ⟨hleads, hroot, Nat.lt_succ_of_le hlength, hfinite⟩, hfactor⟩
  have hnone : table.toRoot? unit = none ↔
      ¬ ∃ factors root, table.Leads unit factors root ∧ table.IsRoot root ∧
        factors.length ≤ 15 ∧ ∀ f ∈ factors, f.isFinite = true := by
    constructor
    · rintro hmissing ⟨factors, root, hleads, hroot, hlength, hfinite⟩
      have hfound := (hsome root _).mpr ⟨factors, hleads, hroot, hlength, hfinite, rfl⟩
      cases hmissing.symm.trans hfound
    · intro hnever
      rw [Option.eq_none_iff_forall_ne_some]
      rintro ⟨root, factor⟩ hfound
      obtain ⟨factors, hleads, hroot, hlength, hfinite, -⟩ := (hsome root factor).mp hfound
      exact hnever ⟨factors, root, hleads, hroot, hlength, hfinite⟩
  refine ⟨hsome, hnone, ?_, ?_⟩
  · intro _ place hplace hmissing
    rw [hnone]
    rintro ⟨factors, root, hleads, hroot, -, -⟩
    exact hplace.get?_ne_none hleads hroot hmissing
  · intro _ place round hplace hround hne
    rw [hnone]
    rintro ⟨factors, root, hleads, hroot, -, -⟩
    exact hne (hplace.round_eq_nil hround hleads hroot)

/-- A unit that is its own base has no root, and neither has one whose base is not there. -/
theorem toRoot?_follows_bases_astray :
    let astray : UnitTable := ⟨[.multiple [] "" ⟨0⟩ 2, .multiple [] "" ⟨7⟩ 2]⟩
    astray.toRoot? ⟨0⟩ = none ∧ astray.toRoot? ⟨1⟩ = none := by
  intro astray
  have hcircular : astray.get? ⟨0⟩ = some (.multiple [] "" ⟨0⟩ 2) := rfl
  have hdetached : astray.get? ⟨1⟩ = some (.multiple [] "" ⟨7⟩ 2) := rfl
  have hround : astray.Leads ⟨0⟩ [2] ⟨0⟩ := .link hcircular rfl (.here _)
  have hmissing : astray.Leads ⟨1⟩ [2] ⟨7⟩ := .link hdetached rfl (.here _)
  constructor
  · obtain ⟨-, -, -, hcircle⟩ := toRoot?_follows_bases astray ⟨0⟩
    exact hcircle [] ⟨0⟩ [2] (.here _) hround (List.cons_ne_nil _ _)
  · obtain ⟨-, -, hdangling, -⟩ := toRoot?_follows_bases astray ⟨1⟩
    exact hdangling [2] ⟨7⟩ hmissing rfl

/-- Fifteen steps are taken, and no more. -/
example :
    let doubled : UnitTable :=
      ⟨.root ["u"] "" "" false :: (List.range 16).map fun i => .multiple [] "" ⟨i⟩ 2⟩
    doubled.toRoot? ⟨15⟩ = some (⟨0⟩, 32768) ∧ doubled.toRoot? ⟨16⟩ = none := by
  decide +kernel

end Reckoner.UnitTable
