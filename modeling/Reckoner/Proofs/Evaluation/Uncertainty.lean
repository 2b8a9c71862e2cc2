import Reckoner.Proofs.Evaluation.Outcome
import Reckoner.Rates
import Reckoner.StandardEngine.Definitions
import Mathlib.Data.List.Basic

/-!
# Where uncertainty comes from

An amount is approximate if a unit that went into it is, and it is known only as far as the coarsest
of these units. Both are carried from operand to operand by records that are built anew at each
step, in calls and conversions too. This file gathers the units that an expression refers to, and
proves that the marks of its value are those of these units: no step adds any and none is lost.
-/

namespace Reckoner

/-! ## Marks of units -/

namespace UnitTable

variable (table : UnitTable)

/-- Whether one of some units is approximate. -/
def anyApproximate (units : List UnitId) : Bool :=
  units.any fun unit => (table.get? unit).any UnitEntry.approximate

/-- The coarsest precision that one of some units has. -/
def coarsest (units : List UnitId) : Option Int :=
  (units.filterMap fun unit => (table.get? unit).bind UnitEntry.precision).max?

end UnitTable

namespace Quantity

variable {table : UnitTable} {q r : Quantity} {units others : List UnitId}

/-- Of three precisions, any two may be compared first. -/
theorem coarser_assoc (a b c : Option Int) :
    coarser (coarser a b) c = coarser a (coarser b c) := by
  cases a <;> cases b <;> cases c <;> simp [coarser, Int.max_assoc]

/-- The greatest of some precisions and another is the coarser of the two. -/
theorem max?_cons_eq_coarser (p : Int) (ps : List Int) :
    (p :: ps).max? = coarser (some p) ps.max? := by
  rw [List.max?_cons]
  cases ps.max? <;> rfl

/-- The greatest precision of two lists is the coarser of the greatest ones of each. -/
theorem max?_append_eq_coarser (ps qs : List Int) :
    (ps ++ qs).max? = coarser ps.max? qs.max? := by
  induction ps with
  | nil => rfl
  | cons p ps ih =>
    rw [List.cons_append, max?_cons_eq_coarser, max?_cons_eq_coarser, ih, coarser_assoc]

/-- A quantity is marked by some units if it is approximate when one of them is, and known as far as
the coarsest of them. -/
structure MarkedBy (table : UnitTable) (q : Quantity) (units : List UnitId) : Prop where
  approximate : q.approximate = table.anyApproximate units
  precision : q.precision = table.coarsest units

/-- A plain number is marked by no unit. -/
theorem markedBy_number (value : Float) : (number value).MarkedBy table [] :=
  ⟨rfl, rfl⟩

/-- Only the marks matter. -/
theorem MarkedBy.congr (hq : q.MarkedBy table units) (happroximate : r.approximate = q.approximate)
    (hprecision : r.precision = q.precision) : r.MarkedBy table units :=
  ⟨happroximate.trans hq.approximate, hprecision.trans hq.precision⟩

/-- Merged quantities are marked by the units of both. -/
theorem MarkedBy.merged (hq : q.MarkedBy table units) (hr : r.MarkedBy table others) :
    (q.merged r).MarkedBy table (units ++ others) where
  approximate := by
    show (q.approximate || r.approximate) = _
    rw [hq.approximate, hr.approximate, UnitTable.anyApproximate, UnitTable.anyApproximate,
      UnitTable.anyApproximate, List.any_append]
  precision := by
    show coarser q.precision r.precision = _
    rw [hq.precision, hr.precision, UnitTable.coarsest, UnitTable.coarsest, UnitTable.coarsest,
      List.filterMap_append, max?_append_eq_coarser]

/-- One of a unit that is in the table is marked by that unit. -/
theorem markedBy_unit {unit : UnitId} {entry : UnitEntry} (hentry : table.get? unit = some entry)
    (happroximate : q.approximate = entry.approximate)
    (hprecision : q.precision = entry.precision) :
    q.MarkedBy table [unit] where
  approximate := by
    rw [happroximate, UnitTable.anyApproximate, List.any_cons, hentry, List.any_nil, Bool.or_false]
    rfl
  precision := by
    rw [hprecision, UnitTable.coarsest, List.filterMap_cons, hentry, Option.bind_some]
    cases entry.precision <;> rfl

end Quantity

/-! ## Units of expressions -/

namespace Scope

/-- The unit that a name stands for. It stands for none if it is bound or names a variable. -/
def unitOf? (scope : Scope) (binding : Option Float) (label : String) : Option UnitId :=
  match if label == "x" then binding else none, scope.constants.find? label with
  | none, none => scope.units.find? label
  | _, _ => none

mutual

/-- The units that an expression refers to, by names that stand for them and as the targets of
conversions. -/
def references (scope : Scope) (binding : Option Float) : Expr → List UnitId
  | .number _ => []
  | .name label => (scope.unitOf? binding label).toList
  | .neg operand => scope.references binding operand
  | .binary _ left right => scope.references binding left ++ scope.references binding right
  | .call _ arguments => scope.referencesAll binding arguments
  | .convert operand unit =>
      scope.references binding operand ++ (scope.units.find? unit).toList

/-- The units that some expressions refer to. -/
def referencesAll (scope : Scope) (binding : Option Float) : List Expr → List UnitId
  | [] => []
  | first :: others => scope.references binding first ++ scope.referencesAll binding others

end

/-- The units that conversions rest on have a factor. -/
def HasFactors (scope : Scope) (units : List UnitId) : Prop :=
  ∀ unit ∈ units, ∀ root factor, scope.units.toRoot? unit = some (root, factor) →
    factor.isNaN = false

variable {scope : Scope} {binding : Option Float}

/-- What one of some expressions refers to, all of them refer to. -/
theorem references_subset {e : Expr} {es : List Expr} (he : e ∈ es) :
    scope.references binding e ⊆ scope.referencesAll binding es := by
  induction es with
  | nil => cases he
  | cons first others ih =>
    rw [referencesAll]
    rcases List.mem_cons.mp he with rfl | hothers
    · exact List.subset_append_left _ _
    · exact List.Subset.trans (ih hothers) (List.subset_append_right _ _)

/-! ## Marks of values -/

/-- One of a unit has the marks of that unit, and its value is the factor of the unit, unless a
fault is reported. -/
theorem markedBy_unitOutcome {unit : UnitId} {name : String}
    (hquiet : (scope.unitOutcome unit name).faults = []) :
    (scope.unitOutcome unit name).value.MarkedBy scope.units [unit] ∧
      ∃ root, scope.units.toRoot? unit =
        some (root, (scope.unitOutcome unit name).value.value) := by
  unfold unitOutcome at hquiet ⊢
  cases hentry : scope.units.get? unit with
  | none =>
    rw [hentry] at hquiet
    cases hquiet
  | some entry =>
    cases hroot : scope.units.toRoot? unit with
    | none =>
      rw [hentry, hroot] at hquiet
      cases hquiet
    | some pair => exact ⟨Quantity.markedBy_unit hentry rfl rfl, pair.1, rfl⟩

/-- A name that has a value has the marks of the unit that it stands for. -/
theorem markedBy_nameOutcome {label : String}
    (hquiet : (scope.nameOutcome binding label).faults = [])
    (hnumeric : (scope.nameOutcome binding label).value.symbolic = false) :
    (scope.nameOutcome binding label).value.MarkedBy scope.units
      (scope.unitOf? binding label).toList := by
  unfold nameOutcome at hquiet hnumeric ⊢
  unfold unitOf?
  cases hbound : if label == "x" then binding else none with
  | some x => exact Quantity.markedBy_number x
  | none =>
    rw [hbound] at hquiet hnumeric
    cases hconstant : scope.constants.find? label with
    | some v =>
      rw [hconstant] at hnumeric
      dsimp only at hnumeric ⊢
      cases hvalue : v.value with
      | none =>
        rw [hvalue] at hnumeric
        cases hnumeric
      | some value => exact Quantity.markedBy_number value
    | none =>
      rw [hconstant] at hquiet hnumeric
      cases hunit : scope.units.find? label with
      | some unit =>
        rw [hunit] at hquiet
        exact (markedBy_unitOutcome hquiet).1
      | none =>
        rw [hunit] at hquiet hnumeric
        dsimp only at hquiet hnumeric ⊢
        split at hquiet
        · next hunknowns =>
          rw [if_pos hunknowns] at hnumeric
          cases hnumeric
        · cases hquiet

/-- A conversion that has a value adds the marks of its target. -/
theorem markedBy_convertOutcome {q : Quantity} {name : String} {units : List UnitId}
    (hq : q.symbolic = false → q.MarkedBy scope.units units)
    (hfactors : scope.HasFactors (scope.units.find? name).toList)
    (hquiet : (scope.convertOutcome q name).faults = [])
    (hnumeric : (scope.convertOutcome q name).value.symbolic = false) :
    (scope.convertOutcome q name).value.MarkedBy scope.units
      (units ++ (scope.units.find? name).toList) := by
  unfold convertOutcome at hquiet hnumeric ⊢
  split
  · next hsymbolic =>
    rw [if_pos hsymbolic] at hnumeric
    cases hsymbolic.symm.trans hnumeric
  · next hplain =>
    rw [if_neg hplain] at hquiet hnumeric
    have hmarked := hq (Bool.eq_false_iff.mpr hplain)
    cases hunit : scope.units.find? name with
    | none =>
      rw [hunit] at hquiet
      cases hquiet
    | some unit =>
      rw [hunit] at hquiet hnumeric hfactors
      dsimp only [Outcome.andThen] at hquiet hnumeric ⊢
      obtain ⟨hconverted, htarget⟩ := List.append_eq_nil_iff.mp hquiet
      obtain ⟨htargetMarked, root, hroot⟩ := markedBy_unitOutcome htarget
      have hdefined := hfactors unit List.mem_cons_self root _ hroot
      rw [if_neg (Bool.eq_false_iff.mp hdefined)] at hconverted hnumeric ⊢
      split
      · exact (hmarked.merged htargetMarked).congr rfl rfl
      · next hother =>
        rw [if_neg hother] at hconverted
        cases hconverted

/-- Arguments that report no fault have their values. -/
theorem argumentsOutcome_of_quiet {function : String} {arguments : List Expr}
    (hquiet : (scope.argumentsOutcome binding function arguments).faults = []) :
    (∀ e ∈ arguments, (scope.outcome binding e).faults = []) ∧
      (scope.argumentsOutcome binding function arguments).value =
        some (arguments.map fun e => (scope.outcome binding e).value) := by
  induction arguments with
  | nil => exact ⟨fun e he => absurd he List.not_mem_nil, rfl⟩
  | cons first others ih =>
    rw [argumentsOutcome] at hquiet ⊢
    dsimp only [Outcome.andThen] at hquiet ⊢
    obtain ⟨hrest, hfirst⟩ := List.append_eq_nil_iff.mp hquiet
    split at hrest
    · cases hrest
    · next hplain =>
      obtain ⟨-, hothers⟩ := List.append_eq_nil_iff.mp hrest
      obtain ⟨heach, hvalues⟩ := ih hothers
      rw [if_neg hplain, hvalues]
      exact ⟨List.forall_mem_cons.mpr ⟨hfirst, heach⟩, rfl⟩

/-- A function merges its arguments and gives the result a value of its own. -/
theorem exists_applyFunction_eq (f : NumericFunction) (values : List Quantity) :
    ∃ value, scope.applyFunction f values =
      { values.foldl Quantity.merged (.number 0.0) with value } := by
  unfold applyFunction
  dsimp only
  split
  · exact ⟨_, rfl⟩
  · exact ⟨_, rfl⟩

/-- What is merged from the values of arguments has the marks of their units. -/
theorem markedBy_foldl_merged {q : Quantity} {units : List UnitId}
    (hq : q.MarkedBy scope.units units) {arguments : List Expr}
    (harguments : ∀ e ∈ arguments,
      (scope.outcome binding e).value.MarkedBy scope.units (scope.references binding e)) :
    ((arguments.map fun e => (scope.outcome binding e).value).foldl Quantity.merged q).MarkedBy
      scope.units (units ++ scope.referencesAll binding arguments) := by
  induction arguments generalizing q units with
  | nil =>
    rw [referencesAll, List.append_nil]
    exact hq
  | cons first others ih =>
    rw [referencesAll, ← List.append_assoc]
    obtain ⟨hfirst, hothers⟩ := List.forall_mem_cons.mp harguments
    exact ih (hq.merged hfirst) hothers

/-- The value of a function has the marks of the units of its arguments. -/
theorem markedBy_applyFunction (f : NumericFunction) {arguments : List Expr}
    (harguments : ∀ e ∈ arguments, (scope.outcome binding e).value.symbolic = false →
      (scope.outcome binding e).value.MarkedBy scope.units (scope.references binding e))
    (hnumeric : (scope.applyFunction f
      (arguments.map fun e => (scope.outcome binding e).value)).symbolic = false) :
    (scope.applyFunction f (arguments.map fun e => (scope.outcome binding e).value)).MarkedBy
      scope.units (scope.referencesAll binding arguments) := by
  obtain ⟨value, happlied⟩ := scope.exists_applyFunction_eq f
    (arguments.map fun e => (scope.outcome binding e).value)
  rw [happlied] at hnumeric ⊢
  rw [Quantity.symbolic_foldl_merged, Bool.or_eq_false_iff, List.any_map] at hnumeric
  have hmarked : ∀ e ∈ arguments,
      (scope.outcome binding e).value.MarkedBy scope.units (scope.references binding e) :=
    fun e he => harguments e he (Bool.eq_false_iff.mpr (List.any_eq_false.mp hnumeric.2 e he))
  exact (markedBy_foldl_merged (Quantity.markedBy_number 0.0) hmarked).congr rfl rfl

/-- An expression that has a value and reports no fault has the marks of the units that it refers
to. -/
theorem markedBy_outcome {e : Expr} (hfactors : scope.HasFactors (scope.references binding e))
    (hquiet : (scope.outcome binding e).faults = [])
    (hnumeric : (scope.outcome binding e).value.symbolic = false) :
    (scope.outcome binding e).value.MarkedBy scope.units (scope.references binding e) := by
  induction e using Expr.induction with
  | number value => exact Quantity.markedBy_number value
  | name label => exact markedBy_nameOutcome hquiet hnumeric
  | neg operand ih => exact (ih hfactors hquiet hnumeric).congr rfl rfl
  | binary op left right ihleft ihright =>
    rw [outcome] at hquiet hnumeric ⊢
    rw [references] at hfactors ⊢
    dsimp only [Outcome.andThen] at hquiet hnumeric ⊢
    obtain ⟨hafterLeft, hleft⟩ := List.append_eq_nil_iff.mp hquiet
    obtain ⟨hcombined, hright⟩ := List.append_eq_nil_iff.mp hafterLeft
    cases hresult : Quantity.combine op (scope.outcome binding left).value
        (scope.outcome binding right).value with
    | error fault =>
      rw [hresult] at hcombined
      cases hcombined
    | ok q =>
      rw [hresult] at hnumeric
      obtain ⟨value, dimension, display, rfl⟩ := Quantity.exists_eq_of_combine hresult
      obtain ⟨hleftNumeric, hrightNumeric⟩ := Bool.or_eq_false_iff.mp hnumeric
      have hleftMarked :=
        ihleft (fun unit hunit => hfactors unit (List.mem_append_left _ hunit)) hleft hleftNumeric
      have hrightMarked := ihright (fun unit hunit => hfactors unit (List.mem_append_right _ hunit))
        hright hrightNumeric
      exact (hleftMarked.merged hrightMarked).congr rfl rfl
  | call function arguments ih =>
    rw [outcome] at hquiet hnumeric ⊢
    rw [references] at hfactors ⊢
    cases hfunction : scope.functions.get? function with
    | none =>
      rw [hfunction] at hquiet
      cases hquiet
    | some f =>
      rw [hfunction] at hquiet hnumeric
      dsimp only at hquiet hnumeric ⊢
      split at hquiet
      · next haccepts =>
        rw [if_pos haccepts] at hnumeric ⊢
        obtain ⟨-, hevaluated⟩ := List.append_eq_nil_iff.mp hquiet
        obtain ⟨heach, hvalues⟩ := argumentsOutcome_of_quiet hevaluated
        dsimp only [Outcome.andThen] at hnumeric ⊢
        rw [hvalues] at hnumeric ⊢
        refine markedBy_applyFunction f (fun e he => ?_) hnumeric
        exact ih e he (fun unit hunit => hfactors unit (references_subset he hunit)) (heach e he)
      · cases hquiet
  | convert operand unit ih =>
    rw [outcome] at hquiet hnumeric ⊢
    rw [references] at hfactors ⊢
    obtain ⟨hconverted, hoperand⟩ := List.append_eq_nil_iff.mp hquiet
    have hleft := ih (fun unit hunit => hfactors unit (List.mem_append_left _ hunit)) hoperand
    exact markedBy_convertOutcome hleft
      (fun unit hunit => hfactors unit (List.mem_append_right _ hunit)) hconverted hnumeric

/-- Whatever the tables, the settings and the value of `x`: when an expression without plots has
been evaluated to a number and nothing was reported meanwhile, and the units that it refers to have
factors, then its value is approximate just when one of these units is, and it is known as far as
the coarsest of them. -/
theorem eval_uncertainty {e : Expr} {q : Quantity} {start after : Run} (hplotless : e.Plotless)
    (hrun : (scope.eval e).run start = (.ok q, after)) (hquiet : after.messages = start.messages)
    (hnumeric : q.symbolic = false)
    (hfactors : scope.HasFactors (scope.references start.binding e)) :
    (q.approximate = true ↔ ∃ unit ∈ scope.references start.binding e, ∃ entry,
        scope.units.get? unit = some entry ∧ entry.approximate = true) ∧
      q.precision = ((scope.references start.binding e).filterMap fun unit =>
        (scope.units.get? unit).bind UnitEntry.precision).max? := by
  obtain ⟨rfl, ticks, rfl⟩ := scope.computes_eval hplotless hrun
  have hfaults : (scope.outcome start.binding e).faults = [] := by
    have hnone : (scope.outcome start.binding e).messages = [] := List.append_left_eq_self.mp hquiet
    exact List.map_eq_nil_iff.mp hnone
  obtain ⟨happroximate, hprecision⟩ := markedBy_outcome hfactors hfaults hnumeric
  refine ⟨?_, hprecision⟩
  rw [happroximate, UnitTable.anyApproximate, List.any_eq_true]
  simp only [Option.any_eq_true]

/-- A quotient of dollars by euros has no unit, and its absolute value is as uncertain as the rate
of the dollar. -/
theorem eval_uncertainty_quotient :
    let engine := StandardEngine.withDefinitions
    let refreshed := (updateRates engine (.metered 0 1) [⟨"USD", "0.9"⟩] "EUR" false).2
    let dollars := Expr.binary .juxtapose (.number 3.0) (.name "USD")
    let e := Expr.call "abs" [.binary .div dollars (.name "EUR")]
    let run := ((refreshed.scope {} (.metered 0 1) 500).eval e).run {}
    ∃ q after, run = (.ok q, after) ∧ q.dimension = none ∧ q.approximate = true ∧
      q.precision = some (-2) := by
  intro engine refreshed dollars e run
  let scope := refreshed.scope {} (.metered 0 1) 500
  have hvalue : run.1.map (fun q => (q.symbolic, q.dimension)) = .ok (false, none) := by
    decide +kernel
  have hquiet : run.2.messages = [] := by decide +kernel
  have hreferences : scope.references none e = [⟨5⟩, ⟨4⟩] := by decide +kernel
  have hplotless : e.Plotless :=
    .call (fun _ h => absurd (Expr.call.inj h).1 (by decide)) fun a ha =>
      List.mem_singleton.mp ha ▸ .binary nofun (.binary nofun (.number nofun) (.name nofun))
        (.name nofun)
  have hfactors : scope.HasFactors (scope.references none e) := by
    have hdollar : (scope.units.toRoot? ⟨5⟩).map (·.2.isNaN) = some false := by decide +kernel
    have heuro : (scope.units.toRoot? ⟨4⟩).map (·.2.isNaN) = some false := by decide +kernel
    intro unit hunit root factor hroot
    rw [hreferences] at hunit
    rcases List.mem_pair.mp hunit with rfl | rfl
    · rw [hroot] at hdollar
      exact Option.some.inj hdollar
    · rw [hroot] at heuro
      exact Option.some.inj heuro
  cases houtcome : run.1 with
  | error halt =>
    rw [houtcome] at hvalue
    cases hvalue
  | ok q =>
    rw [houtcome] at hvalue
    obtain ⟨hnumeric, hdimension⟩ := Prod.mk.inj (Except.ok.inj hvalue)
    have hrun : run = (.ok q, run.2) := Prod.ext houtcome rfl
    obtain ⟨happroximate, hprecision⟩ :=
      eval_uncertainty hplotless hrun hquiet hnumeric hfactors
    have hdollar : (scope.units.get? ⟨5⟩).any UnitEntry.approximate = true := by decide +kernel
    refine ⟨q, run.2, hrun, hdimension,
      happroximate.mpr ⟨⟨5⟩, ?_, (Option.any_eq_true _ _).mp hdollar⟩, ?_⟩
    · show _ ∈ scope.references none e
      rw [hreferences]
      exact List.mem_cons_self
    · have hcoarsest : scope.units.coarsest [⟨5⟩, ⟨4⟩] = some (-2) := by decide +kernel
      rw [← hcoarsest, ← hreferences]
      exact hprecision

end Scope

end Reckoner
