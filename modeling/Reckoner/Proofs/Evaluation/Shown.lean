import Reckoner.Proofs.Binary64.Bits
import Reckoner.Proofs.Evaluation.Congruence
import Reckoner.Proofs.Units.Lookup
import Reckoner.Rates
import Reckoner.StandardEngine.Definitions
import Mathlib.Order.Basic

/-!
# The unit that a value is shown in

A value has a dimension, which is a root unit, and a unit to be shown in. Both are carried through
the operators by rules of their own. This file proves that they never part: an evaluation gives
either a plain number or a value whose unit has a name and leads to its dimension. What is printed
then ends with that name, unless the amount is undefined.
-/

namespace Reckoner

/-! ## Units and their roots -/

namespace UnitTable

/-- Bases are followed until a root. -/
theorem isRoot_of_rootFrom {table : UnitTable} {visits : Nat} {unit root : UnitId}
    {factor factor' : Float} (hroot : table.rootFrom visits unit factor = some (root, factor')) :
    ∃ entry, table.get? root = some entry ∧ entry.base = none := by
  induction visits generalizing unit factor with
  | zero => cases hroot
  | succ visits ih =>
    rw [rootFrom] at hroot
    split at hroot
    · cases hroot
    · next entry hentry =>
      split at hroot
      · next hbase =>
        obtain ⟨rfl, -⟩ := Prod.mk.inj (Option.some.inj hroot)
        exact ⟨entry, hentry, hbase⟩
      · split at hroot
        · exact ih hroot
        · cases hroot

/-- A unit in which values of a dimension can be shown: it has a name, and so many of its root make
one of it. -/
structure Shows (table : UnitTable) (unit root : UnitId) (factor : Float) (name : String) :
    Prop where
  named : ∃ entry others, table.get? unit = some entry ∧ entry.names = name :: others
  toRoot : table.toRoot? unit = some (root, factor)
  isRoot : ∃ entry, table.get? root = some entry ∧ entry.base = none

/-- A unit that was found by a name can show values as soon as it leads to a root. -/
theorem exists_shows {table : UnitTable} {label : String} {unit root : UnitId} {factor : Float}
    (hfound : table.find? label = some unit) (hroot : table.toRoot? unit = some (root, factor)) :
    ∃ name, table.Shows unit root factor name := by
  obtain ⟨entry, hentry, hlabel⟩ := get?_of_find? hfound
  cases hnames : entry.names with
  | nil =>
    rw [hnames] at hlabel
    cases hlabel
  | cons name others =>
    exact ⟨name, ⟨entry, others, hentry, hnames⟩, hroot, isRoot_of_rootFrom hroot⟩

end UnitTable

/-! ## Values and their units -/

/-- A value has neither a dimension nor a unit, or it has a unit that shows its dimension. -/
inductive Quantity.Shown (table : UnitTable) (q : Quantity) : Prop where
  | plain (hdimension : q.dimension = none) (hdisplay : q.display = none)
  | inUnit {unit root : UnitId} {factor : Float} {name : String}
      (hdimension : q.dimension = some root) (hdisplay : q.display = some unit)
      (hunit : table.Shows unit root factor name)

namespace Quantity

variable {table : UnitTable} {q l r : Quantity}

/-- Nothing but the dimension and the unit matters. -/
theorem Shown.congr (hq : q.Shown table) {q' : Quantity} (hdimension : q'.dimension = q.dimension)
    (hdisplay : q'.display = q.display) : q'.Shown table := by
  cases hq with
  | plain hnone hnone' => exact .plain (hdimension.trans hnone) (hdisplay.trans hnone')
  | inUnit hsome hsome' hunit =>
    exact .inUnit (hdimension.trans hsome) (hdisplay.trans hsome') hunit

/-- Two operands of one dimension are shown in the unit of the first that has one. -/
theorem Shown.sum (hl : l.Shown table) (hr : r.Shown table) (hsame : l.dimension = r.dimension)
    (hdimension : q.dimension = l.dimension) (hdisplay : q.display = l.display.or r.display) :
    q.Shown table := by
  cases hl with
  | plain hnone hnone' =>
    cases hr with
    | plain _ hother =>
      exact .plain (hdimension.trans hnone) (by rw [hdisplay, hnone', hother]; rfl)
    | inUnit hsome => cases hnone.symm.trans (hsame.trans hsome)
  | inUnit hsome hsome' hunit =>
    exact .inUnit (hdimension.trans hsome) (by rw [hdisplay, hsome']; rfl) hunit

/-- A product is shown in the unit of its first factor that has one. -/
theorem Shown.product (hl : l.Shown table) (hr : r.Shown table)
    (hdimension : q.dimension = l.dimension.or r.dimension)
    (hdisplay : q.display = l.display.or r.display) : q.Shown table := by
  cases hl with
  | plain hnone hnone' =>
    rw [hnone, Option.none_or] at hdimension
    rw [hnone', Option.none_or] at hdisplay
    exact hr.congr hdimension hdisplay
  | inUnit hsome hsome' hunit =>
    rw [hsome, Option.some_or] at hdimension
    rw [hsome', Option.some_or] at hdisplay
    exact .inUnit hdimension hdisplay hunit

/-- Operators keep values and their units together. -/
theorem Shown.combine {op : Operator} (hl : l.Shown table) (hr : r.Shown table)
    (hq : Quantity.combine op l r = .ok q) : q.Shown table := by
  have hsum {value : Float} (hq : combineSum (l.merged r) l r value = .ok q) : q.Shown table := by
    unfold combineSum at hq
    split at hq
    · next hsame =>
      obtain rfl := Except.ok.inj hq
      exact hl.sum hr hsame rfl rfl
    · cases hq
  have hproduct {value : Float} (hq : (if l.dimension.isSome && r.dimension.isSome then
      .error .compoundUnits
    else .ok { l.merged r with
      value
      dimension := l.dimension.or r.dimension
      display := l.display.or r.display } : Except EvaluationFault Quantity) = .ok q) :
      q.Shown table := by
    split at hq
    · cases hq
    · obtain rfl := Except.ok.inj hq
      exact hl.product hr rfl rfl
  unfold Quantity.combine at hq
  dsimp only at hq
  split at hq
  · obtain rfl := Except.ok.inj hq
    exact hl.congr rfl rfl
  · cases op with
    | add => exact hsum hq
    | sub => exact hsum hq
    | mul => exact hproduct hq
    | juxtapose => exact hproduct hq
    | div =>
      dsimp only at hq
      split at hq
      · cases hq
      · split at hq
        · obtain rfl := Except.ok.inj hq
          exact hl.congr rfl rfl
        · split at hq
          · obtain rfl := Except.ok.inj hq
            exact .plain rfl rfl
          · cases hq
    | pow =>
      dsimp only at hq
      split at hq
      · cases hq
      · obtain rfl := Except.ok.inj hq
        exact hl.congr rfl rfl

/-- What is merged into a value leaves its dimension and its unit alone. -/
theorem shown_foldl_merged (hq : q.Shown table) (qs : List Quantity) :
    (qs.foldl merged q).Shown table := by
  induction qs generalizing q with
  | nil => exact hq
  | cons first others ih => exact ih (hq.congr rfl rfl)

/-- A plain number has no unit. -/
theorem shown_number (value : Float) : (number value).Shown table :=
  .plain rfl rfl

end Quantity

/-! ## Evaluations -/

namespace Scope

open Evaluation

variable (scope : Scope)

/-- One of a unit is shown in that unit, if the unit can be converted. -/
theorem yields_unitQuantity {name : String} {unit : UnitId}
    (hfound : scope.units.find? name = some unit) :
    (scope.unitQuantity unit name).Yields fun q =>
      q = .undefined ∨ q.display = some unit ∧ q.Shown scope.units := by
  unfold unitQuantity
  split
  · exact .fail (.inl rfl) _
  · split
    · exact .fail (.inl rfl) _
    · next root factor hroot =>
      obtain ⟨label, hshows⟩ := UnitTable.exists_shows hfound hroot
      exact .after fun _ => .pure (.inr ⟨rfl, .inUnit rfl rfl hshows⟩)

/-- A name that is not bound stands for what can be shown. -/
theorem shown_lookUp (name : String) :
    (scope.lookUp name).Yields (Quantity.Shown scope.units) := by
  unfold lookUp
  split
  · next v _ =>
    refine .pure ?_
    cases v.value with
    | none => exact .plain rfl rfl
    | some value => exact Quantity.shown_number value
  · split
    · next unit hfound =>
      intro a q b hrun
      rcases scope.yields_unitQuantity hfound hrun with rfl | ⟨-, hshown⟩
      · exact Quantity.shown_number _
      · exact hshown
    · split
      · exact .pure (.plain rfl rfl)
      · exact .fail (Quantity.shown_number _) _

/-- A name stands for what can be shown. -/
theorem shown_identifier (name : String) :
    (scope.identifier name).Yields (Quantity.Shown scope.units) := by
  unfold identifier
  refine .after fun run => ?_
  split
  · exact .pure (Quantity.shown_number _)
  · exact scope.shown_lookUp name

/-- A conversion shows a value in another unit of its dimension. -/
theorem shown_convert {q : Quantity} (hq : q.Shown scope.units) (name : String) :
    (scope.convert q name).Yields (Quantity.Shown scope.units) := by
  unfold convert
  split
  · exact .pure hq
  · split
    · exact .fail (Quantity.shown_number _) _
    · next unit hfound =>
      refine (scope.yields_unitQuantity hfound).bind fun target htarget => ?_
      -- An undefined target is handed on, so that it never lends its unit to a value.
      rcases htarget with rfl | ⟨hdisplay, htarget⟩
      · rw [if_pos (by decide)]
        exact .pure (Quantity.shown_number _)
      · split
        · exact .pure htarget
        · split
          · next hsame => exact .pure (htarget.congr hsame.symm hdisplay.symm)
          · exact .fail (Quantity.shown_number _) _

/-- A plot has the value one, if it has any. -/
theorem shown_plotBetween (body : Expr) (sample : Evaluation Quantity)
    (lower upper steps : Float) :
    (scope.plotBetween body sample lower upper steps).Yields (Quantity.Shown scope.units) := by
  unfold plotBetween
  split
  · exact .fail (Quantity.shown_number _) _
  · refine .after fun points => ?_
    split
    · exact .after fun _ => .after fun _ => .pure (Quantity.shown_number _)
    · exact .after fun _ => .pure (Quantity.shown_number _)

/-- A call of `plot` has no unit. -/
theorem shown_plot (arguments : List Expr) :
    (scope.plot arguments).Yields (Quantity.Shown scope.units) := by
  cases arguments with
  | nil =>
    rw [plot]
    exact .fail (Quantity.shown_number _) _
  | cons body bounds =>
    rw [plot]
    split
    · refine .after fun values => ?_
      split
      · exact scope.shown_plotBetween body _ _ _ _
      · exact scope.shown_plotBetween body _ _ _ _
      · exact .pure (Quantity.shown_number _)
    · exact .fail (Quantity.shown_number _) _

/-- The value of a function has no unit. -/
theorem shown_applyFunction (f : NumericFunction) (arguments : List Quantity) :
    (scope.applyFunction f arguments).Shown scope.units := by
  have hmerged : (arguments.foldl Quantity.merged (.number 0.0)).Shown scope.units :=
    Quantity.shown_foldl_merged (Quantity.shown_number 0.0) arguments
  unfold applyFunction
  dsimp only
  split
  · exact hmerged
  · exact hmerged.congr rfl rfl

/-- Every value of an expression can be shown. -/
theorem shown_eval (e : Expr) : (scope.eval e).Yields (Quantity.Shown scope.units) := by
  induction e using Expr.induction with
  | number value =>
    rw [eval]
    exact .after fun _ => .pure (Quantity.shown_number value)
  | name label =>
    rw [eval]
    exact .after fun _ => scope.shown_identifier label
  | neg operand ih =>
    rw [eval]
    exact .after fun _ => ih.bind fun q hq => .pure (hq.congr rfl rfl)
  | binary op left right ihleft ihright =>
    rw [eval]
    refine .after fun _ => ihleft.bind fun l hl => ihright.bind fun r hr => ?_
    cases hcombined : Quantity.combine op l r with
    | ok q => exact .pure (hl.combine hr hcombined)
    | error fault => exact .fail (Quantity.shown_number _) _
  | call function arguments =>
    rw [eval]
    refine .after fun _ => ?_
    split
    · exact scope.shown_plot arguments
    · split
      · exact .fail (Quantity.shown_number _) _
      · next f _ =>
        split
        · refine .after fun values? => ?_
          split
          · exact .pure (Quantity.shown_number _)
          · exact .pure (scope.shown_applyFunction f _)
        · exact .fail (Quantity.shown_number _) _
  | convert operand unit ih =>
    rw [eval]
    exact .after fun _ => ih.bind fun q hq => scope.shown_convert hq unit

end Scope

/-! ## What is printed -/

namespace StandardEngine

/-- The text of an amount, with its uncertainty if it is an approximate one. -/
def amountText (settings : Settings) (q : Quantity) (amount : Float) : String :=
  if q.approximate && amount.isFinite then Answer.approximate settings.print q.precision amount
  else Answer.exact settings.print amount

/-- An undefined amount is printed as such, whatever the settings. -/
theorem amountText_of_isNaN {amount : Float} (hamount : amount.isNaN = true) (settings : Settings)
    (q : Quantity) : amountText settings q amount = "undefined" := by
  have hnumber : Answer.number settings.print none amount = "undefined" := by
    rw [Answer.number, Answer.numberChars, Binary64.ofFloat_of_isNaN hamount]
    exact String.ofList_toList
  have hrepeats : Answer.repeats amount = false := by
    rw [Answer.repeats, Binary64.ofFloat_of_isNaN hamount]
  rw [amountText, Binary64.isFinite_of_isNaN hamount, Bool.and_false, if_neg Bool.false_ne_true,
    Answer.exact, hnumber, hrepeats, Bool.and_false, if_neg Bool.false_ne_true]

variable {engine : StandardEngine} {settings : Settings} {q : Quantity}

/-- A value without a unit is printed as its amount. -/
theorem render_plain (hdisplay : q.display = none) :
    engine.render settings q = amountText settings q q.value := by
  have hunit : engine.displayUnit? q = none := by
    rw [displayUnit?, hdisplay]
    rfl
  rw [render, hunit]
  dsimp only
  rw [String.append_empty, ite_self]
  rfl

/-- A value that can be shown in a unit is printed with the name of the unit, unless the amount is
undefined. -/
theorem render_inUnit {unit root : UnitId} {factor : Float} {name : String}
    (hdisplay : q.display = some unit) (hshows : engine.units.Shows unit root factor name) :
    engine.render settings q =
      if (q.value / factor).isNaN then "undefined"
      else amountText settings q (q.value / factor) ++ " " ++ name := by
  obtain ⟨entry, others, hentry, hnames⟩ := hshows.named
  have hunit : engine.displayUnit? q = some (unit, factor) := by
    rw [displayUnit?, hdisplay]
    show (engine.units.toRoot? unit >>= _) = _
    rw [hshows.toRoot]
    rfl
  have hname : entry.displayName = name := by
    rw [UnitEntry.displayName, hnames]
    rfl
  rw [render, hunit]
  dsimp only
  rw [hentry, Option.map_some, Option.getD_some, hname]
  split
  · next hundefined => exact amountText_of_isNaN hundefined settings q
  · rw [String.append_assoc]
    rfl

/-- Whatever the tables, the settings and the value of `x`, an evaluation gives either a plain
number, or a value in a unit of the table which has a name and whose root is the dimension of the
value. What is printed of the latter is the amount in that unit with the name of the unit, or just
that it is undefined. -/
theorem eval_shown {clock : Clock} {deadline : Int} {e : Expr} {start after : Run}
    (hrun : ((engine.scope settings clock deadline).eval e).run start = (.ok q, after)) :
    (q.dimension = none ∧ q.display = none ∧
        engine.render settings q = amountText settings q q.value) ∨
      ∃ unit root factor name, q.dimension = some root ∧ q.display = some unit ∧
        engine.units.Shows unit root factor name ∧
        engine.render settings q =
          if (q.value / factor).isNaN then "undefined"
          else amountText settings q (q.value / factor) ++ " " ++ name := by
  cases (engine.scope settings clock deadline).shown_eval e hrun with
  | plain hdimension hdisplay => exact .inl ⟨hdimension, hdisplay, render_plain hdisplay⟩
  | inUnit hdimension hdisplay hunit =>
    exact .inr ⟨_, _, _, _, hdimension, hdisplay, hunit, render_inUnit hdisplay hunit⟩

/-- Three kilometres are a length that is shown in kilometres. -/
theorem eval_shown_kilometres :
    let e := Expr.binary .juxtapose (.number 3.0) (.name "km")
    let run := ((withDefinitions.scope {} (.metered 0 1) 500).eval e).run {}
    ∃ q after, run = (.ok q, after) ∧
      ∃ root factor name, q.dimension = some root ∧ q.display = some ⟨1⟩ ∧
        withDefinitions.units.Shows ⟨1⟩ root factor name ∧
        withDefinitions.render {} q =
          if (q.value / factor).isNaN then "undefined"
          else amountText {} q (q.value / factor) ++ " " ++ name := by
  intro e run
  have hkilometres : run.1.map (·.display) = .ok (some ⟨1⟩) := by decide +kernel
  cases houtcome : run.1 with
  | error halt =>
    rw [houtcome] at hkilometres
    cases hkilometres
  | ok q =>
    rw [houtcome] at hkilometres
    have hdisplay : q.display = some ⟨1⟩ := Except.ok.inj hkilometres
    have hrun : run = (.ok q, run.2) := Prod.ext houtcome rfl
    refine ⟨q, run.2, hrun, ?_⟩
    rcases eval_shown hrun with ⟨-, hnone, -⟩ | ⟨unit, root, factor, name, hshown⟩
    · cases hnone.symm.trans hdisplay
    · obtain ⟨hdimension, hsome, hshows, hrender⟩ := hshown
      obtain rfl := Option.some.inj (hsome.symm.trans hdisplay)
      exact ⟨root, factor, name, hdimension, hdisplay, hshows, hrender⟩

/-- An undefined length has a unit to be shown in, which is not printed. Neither is that of a finite
amount of a currency of which the root makes nothing. -/
theorem undefined_without_unit :
    let refreshed :=
      (updateRates withDefinitions (.metered 0 1) [⟨"USD", "0"⟩] "EUR" false).2
    let length := (withDefinitions.evaluate {} (.metered 0 1) 500 {}
      (.binary .juxtapose (.binary .div (.number 1.0) (.number 0.0)) (.name "m"))).1
    let amount := (refreshed.evaluate {} (.metered 0 1) 500 {}
      (.binary .juxtapose (.number 0.0) (.name "USD"))).1
    length.map (fun q => (q.dimension, q.display)) = .ok (some ⟨0⟩, some ⟨0⟩) ∧
      length.map (withDefinitions.render {}) = .ok "undefined" ∧
      amount.map (fun q => (q.dimension, q.display)) = .ok (some ⟨4⟩, some ⟨5⟩) ∧
      amount.map (fun q => q.value.isFinite) = .ok true ∧
      amount.map (refreshed.render {}) = .ok "undefined" := by
  decide +kernel

end StandardEngine

end Reckoner
