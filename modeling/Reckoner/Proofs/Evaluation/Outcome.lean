import Reckoner.Proofs.Evaluation.Congruence

/-!
# What an expression comes to

An expression that plots nothing has a value which depends on the tables, the settings and the
binding of `x` alone, and so do the faults that it reports. This file computes both without a clock
and without a run, and proves that every evaluation which comes to its end gives just that: the
clock decides whether there is a value, and never which.
-/

namespace Reckoner

/-! ## Marks of quantities -/

namespace Quantity

/-- An operator that has an answer merges its operands, and gives the result a value, a dimension
and a unit of its own. -/
theorem exists_eq_of_combine {op : Operator} {l r q : Quantity} (hq : combine op l r = .ok q) :
    ∃ value dimension display, q = { l.merged r with value, dimension, display } := by
  have hsum {value : Float} (hq : combineSum (l.merged r) l r value = .ok q) :
      ∃ value dimension display, q = { l.merged r with value, dimension, display } := by
    unfold combineSum at hq
    split at hq
    · exact ⟨_, _, _, (Except.ok.inj hq).symm⟩
    · cases hq
  unfold combine at hq
  dsimp only at hq
  split at hq
  · exact ⟨_, _, _, (Except.ok.inj hq).symm⟩
  · cases op with
    | add | sub => exact hsum hq
    | mul | juxtapose | pow =>
      dsimp only at hq
      split at hq
      · cases hq
      · exact ⟨_, _, _, (Except.ok.inj hq).symm⟩
    | div =>
      dsimp only at hq
      split at hq
      · cases hq
      · split at hq
        · exact ⟨_, _, _, (Except.ok.inj hq).symm⟩
        · split at hq
          · exact ⟨_, _, _, (Except.ok.inj hq).symm⟩
          · cases hq

/-- Quantities that are merged into another make a symbol of it just when one of them is one. -/
theorem symbolic_foldl_merged (q : Quantity) (qs : List Quantity) :
    (qs.foldl merged q).symbolic = (q.symbolic || qs.any symbolic) := by
  induction qs generalizing q with
  | nil => rw [List.foldl_nil, List.any_nil, Bool.or_false]
  | cons first others ih =>
    rw [List.foldl_cons, ih, List.any_cons, ← Bool.or_assoc]
    rfl

end Quantity

/-! ## Outcomes -/

/-- What an evaluation comes to when time does not matter. -/
structure Outcome (α : Type) where
  value : α
  /-- The faults that it reports, the newest first. -/
  faults : List EvaluationFault := []
  /-- Whether it meets a currency other than a root. -/
  usedCurrency : Bool := false

namespace Outcome

variable {α β : Type}

/-- A fault is reported, and the value is undefined. -/
def fail (fault : EvaluationFault) : Outcome Quantity :=
  { value := .undefined, faults := [fault] }

/-- A value, or the fault that there is instead. -/
def ofResult : Except EvaluationFault Quantity → Outcome Quantity
  | .ok q => { value := q }
  | .error fault => fail fault

/-- One thing after another; the second depends on the value of the first. -/
def andThen (first : Outcome α) (next : α → Outcome β) : Outcome β where
  value := (next first.value).value
  faults := (next first.value).faults ++ first.faults
  usedCurrency := first.usedCurrency || (next first.value).usedCurrency

/-- The messages that report the faults. -/
def messages (outcome : Outcome α) : List Message :=
  outcome.faults.map fun fault => ⟨.error, fault.message⟩

/-- The run after it, given the one before and how often the clock was read in all. -/
def after (outcome : Outcome α) (start : Run) (ticks : Nat) : Run :=
  { start with
    messages := outcome.messages ++ start.messages
    usedCurrency := start.usedCurrency || outcome.usedCurrency
    ticks }

end Outcome

namespace Evaluation

variable {α β : Type}

/-- Where an evaluation comes to its end, it has the outcome that belongs to the binding of `x`. -/
def Computes (x : Evaluation α) (outcome : Option Float → Outcome α) : Prop :=
  ∀ ⦃a v b⦄, x.run a = (.ok v, b) →
    v = (outcome a.binding).value ∧ ∃ ticks, b = (outcome a.binding).after a ticks

namespace Computes

/-- A value that is there already is the outcome. -/
theorem pure (v : α) : Computes (pure v) fun _ => { value := v } := by
  intro a w b hrun
  obtain ⟨hvalue, rfl⟩ := Prod.mk.inj hrun
  refine ⟨(Except.ok.inj hvalue).symm, a.ticks, ?_⟩
  simp [Outcome.after, Outcome.messages]

/-- Outcomes follow one another as steps do. -/
theorem bind {x : Evaluation α} {f : α → Evaluation β} {first : Option Float → Outcome α}
    {next : Option Float → α → Outcome β} (hx : Computes x first)
    (hf : ∀ v, Computes (f v) fun binding => next binding v) :
    Computes (x >>= f) fun binding => (first binding).andThen (next binding) := by
  intro a w c hrun
  obtain ⟨v, b, hfirst, hsecond⟩ := run_bind_eq_ok_iff.mp hrun
  obtain ⟨rfl, ticks, rfl⟩ := hx hfirst
  obtain ⟨rfl, ticks', rfl⟩ := hf _ hsecond
  refine ⟨rfl, ticks', ?_⟩
  simp [Outcome.after, Outcome.messages, Outcome.andThen, Bool.or_assoc]

/-- Failing comes to the fault. -/
theorem fail (fault : EvaluationFault) : Computes (fail fault) fun _ => .fail fault := by
  intro a v b hrun
  obtain ⟨hvalue, rfl⟩ := Prod.mk.inj hrun
  refine ⟨(Except.ok.inj hvalue).symm, a.ticks, ?_⟩
  simp [Outcome.after, Outcome.messages, Outcome.fail]

/-- A result comes to its value or its fault. -/
theorem ofResult (result : Except EvaluationFault Quantity) :
    Computes (ofResult result) fun _ => .ofResult result := by
  cases result with
  | ok q => exact pure q
  | error fault => exact fail fault

end Computes

end Evaluation

namespace Scope

/-- What a unit comes to that a name stands for. -/
def unitOutcome (scope : Scope) (unit : UnitId) (name : String) : Outcome Quantity :=
  match scope.units.get? unit, scope.units.toRoot? unit with
  | none, _ => .fail (.unknownName name)
  | some _, none => .fail (.noConversion name)
  | some entry, some (root, factor) =>
      { value :=
          { value := factor
            dimension := some root
            display := some unit
            approximate := entry.approximate
            precision := entry.precision }
        usedCurrency := entry.isCurrency && root != unit }

/-- What a name comes to. -/
def nameOutcome (scope : Scope) (binding : Option Float) (label : String) : Outcome Quantity :=
  match if label == "x" then binding else none with
  | some x => { value := .number x }
  | none =>
      match scope.constants.find? label with
      | some v => { value := (v.value.map Quantity.number).getD .symbol }
      | none =>
          match scope.units.find? label with
          | some unit => scope.unitOutcome unit label
          | none =>
              if scope.settings.parse.unknownsEnabled then { value := .symbol }
              else .fail (.unknownName label)

/-- What the conversion of a value comes to. -/
def convertOutcome (scope : Scope) (q : Quantity) (name : String) : Outcome Quantity :=
  if q.symbolic then { value := q }
  else
    match scope.units.find? name with
    | none => .fail (.unknownUnit name)
    | some unit =>
        (scope.unitOutcome unit name).andThen fun target =>
          if target.value.isNaN then { value := target }
          else if target.dimension = q.dimension then
            { value := { q.merged target with display := some unit } }
          else .fail .incompatibleUnits

mutual

/-- What an expression comes to, if it plots nothing. -/
def outcome (scope : Scope) (binding : Option Float) : Expr → Outcome Quantity
  | .number value => { value := .number value }
  | .name label => scope.nameOutcome binding label
  | .neg operand =>
      (scope.outcome binding operand).andThen fun q => { value := { q with value := -q.value } }
  | .binary op left right =>
      (scope.outcome binding left).andThen fun l =>
        (scope.outcome binding right).andThen fun r => .ofResult (Quantity.combine op l r)
  | .call function arguments =>
      match scope.functions.get? function with
      | none => .fail (.unknownFunction function)
      | some f =>
          if f.accepts arguments.length then
            (scope.argumentsOutcome binding function arguments).andThen fun
              | none => { value := .undefined }
              | some values => { value := scope.applyFunction f values }
          else .fail (.wrongArity function)
  | .convert operand unit =>
      (scope.outcome binding operand).andThen fun q => scope.convertOutcome q unit

/-- What the arguments of a call come to, up to the first that has a unit. -/
def argumentsOutcome (scope : Scope) (binding : Option Float) (function : String) :
    List Expr → Outcome (Option (List Quantity))
  | [] => { value := some [] }
  | first :: others =>
      (scope.outcome binding first).andThen fun q =>
        if q.dimension.isSome then { value := none, faults := [.dimensionedArgument function] }
        else
          (scope.argumentsOutcome binding function others).andThen fun values? =>
            { value := values?.map (q :: ·) }

end

end Scope

/-! ## Evaluations and their outcomes -/

/-- Nothing is plotted in an expression. -/
def Expr.Plotless (e : Expr) : Prop :=
  e.Everywhere fun s => ∀ arguments, s ≠ .call "plot" arguments

namespace Scope

open Evaluation

variable (scope : Scope)

/-- A look at the clock does not matter to what comes after it. -/
theorem computes_after_checkDeadline {α : Type} {x : Evaluation α}
    {outcome : Option Float → Outcome α} (hx : Computes x outcome) :
    Computes (scope.checkDeadline >>= fun _ => x) outcome := by
  intro a v b hrun
  obtain ⟨_, c, hclock, hlast⟩ := run_bind_eq_ok_iff.mp hrun
  rw [run_checkDeadline] at hclock
  obtain ⟨-, rfl⟩ := Prod.mk.inj hclock
  obtain ⟨hvalue, ticks, hrun⟩ := hx hlast
  exact ⟨hvalue, ticks, hrun⟩

/-- A unit comes to its quantity. -/
theorem computes_unitQuantity (unit : UnitId) (name : String) :
    Computes (scope.unitQuantity unit name) fun _ => scope.unitOutcome unit name := by
  unfold unitQuantity unitOutcome
  cases scope.units.get? unit with
  | none => exact .fail _
  | some entry =>
    cases scope.units.toRoot? unit with
    | none => exact .fail _
    | some pair =>
      intro a v b hrun
      obtain ⟨hvalue, rfl⟩ := Prod.mk.inj hrun
      exact ⟨(Except.ok.inj hvalue).symm, a.ticks, rfl⟩

/-- A name comes to what it stands for. -/
theorem computes_identifier (label : String) :
    Computes (scope.identifier label) fun binding => scope.nameOutcome binding label := by
  have hlookUp : Computes (scope.lookUp label) fun _ => scope.nameOutcome none label := by
    simp only [lookUp, nameOutcome, ite_self]
    cases scope.constants.find? label with
    | some v => exact .pure _
    | none =>
      cases scope.units.find? label with
      | some unit => exact scope.computes_unitQuantity unit label
      | none =>
        dsimp only
        split
        · exact .pure _
        · exact .fail _
  intro a v b hrun
  rw [identifier_eq, run_bind] at hrun
  have hbound : ((if label == "x" then a.binding else none).elim (scope.lookUp label) fun x =>
      return .number x : Evaluation Quantity).run a = (.ok v, b) := hrun
  cases hx : if label == "x" then a.binding else none with
  | none =>
    rw [hx] at hbound
    have hsame : scope.nameOutcome a.binding label = scope.nameOutcome none label := by
      rw [nameOutcome, hx, nameOutcome, ite_self]
    dsimp only
    rw [hsame]
    exact hlookUp hbound
  | some x =>
    rw [hx] at hbound
    have hsame : scope.nameOutcome a.binding label = { value := .number x } := by
      rw [nameOutcome, hx]
    dsimp only
    rw [hsame]
    exact Computes.pure _ hbound

/-- A conversion comes to the value in the other unit. -/
theorem computes_convert (q : Quantity) (name : String) :
    Computes (scope.convert q name) fun _ => scope.convertOutcome q name := by
  unfold convert convertOutcome
  split
  · exact .pure q
  · cases scope.units.find? name with
    | none => exact .fail _
    | some unit =>
      refine (scope.computes_unitQuantity unit name).bind fun target => ?_
      split
      · exact .pure target
      · split
        · exact .pure _
        · exact .fail _

/-- Arguments come to their values if each of them does. -/
theorem computes_evalArguments (function : String) {arguments : List Expr}
    (harguments : ∀ e ∈ arguments,
      Computes (scope.eval e) fun binding => scope.outcome binding e) :
    Computes (scope.evalArguments function arguments) fun binding =>
      scope.argumentsOutcome binding function arguments := by
  induction arguments with
  | nil =>
    simp only [evalArguments, argumentsOutcome]
    exact .pure _
  | cons first others ih =>
    have hothers := ih fun e he => harguments e (List.mem_cons_of_mem first he)
    simp only [evalArguments, argumentsOutcome]
    refine (harguments first List.mem_cons_self).bind fun q => ?_
    split
    · intro a v b hrun
      obtain ⟨hvalue, rfl⟩ := Prod.mk.inj hrun
      refine ⟨(Except.ok.inj hvalue).symm, a.ticks, ?_⟩
      simp [Outcome.after, Outcome.messages]
    · exact hothers.bind fun values? => .pure _

/-- An evaluation that comes to its end gives what its expression comes to, if that plots
nothing. -/
theorem computes_eval {e : Expr} (hplotless : e.Plotless) :
    Computes (scope.eval e) fun binding => scope.outcome binding e := by
  induction hplotless with
  | number =>
    simp only [eval, outcome]
    exact scope.computes_after_checkDeadline (.pure _)
  | name =>
    simp only [eval, outcome]
    exact scope.computes_after_checkDeadline (scope.computes_identifier _)
  | neg _ _ ih =>
    simp only [eval, outcome]
    exact scope.computes_after_checkDeadline (ih.bind fun q => .pure _)
  | binary _ _ _ ihleft ihright =>
    simp only [eval, outcome]
    exact scope.computes_after_checkDeadline
      (ihleft.bind fun l => ihright.bind fun r => .ofResult _)
  | @call function arguments here _ ih =>
    have hother : function ≠ "plot" := by
      rintro rfl
      exact here arguments rfl
    simp only [eval, outcome, if_neg hother]
    refine scope.computes_after_checkDeadline ?_
    cases scope.functions.get? function with
    | none => exact .fail _
    | some f =>
      dsimp only
      split
      · refine (scope.computes_evalArguments function ih).bind fun values? => ?_
        cases values? with
        | none => exact .pure _
        | some values => exact .pure _
      · exact .fail _
  | convert _ _ ih =>
    simp only [eval, outcome]
    exact scope.computes_after_checkDeadline (ih.bind fun q => scope.computes_convert q _)

end Scope

end Reckoner
