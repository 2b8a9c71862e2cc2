import Reckoner.Proofs.Evaluation.Congruence

/-!
# What an evaluation changes

An evaluation changes its run in a few ways: it reports faults, notes a currency, looks at the
clock, binds `x` while it takes a sample, and puts plots into the slot. A relation between runs that
each of these changes keeps relates the run before an evaluation to the run after it, however the
evaluation ends. This file goes through an expression once for all such relations. What the calls of
`plot` put into the slot is a condition on these calls.
-/

namespace Reckoner

namespace Evaluation

variable {α β : Type} {R : Run → Run → Prop}

/-- A relation from a run to later ones that is kept by all changes to a run besides plots. -/
structure Effects (R : Run → Run → Prop) : Prop where
  refl (a : Run) : R a a
  trans {a b c : Run} (hab : R a b) (hbc : R b c) : R a c
  report (a : Run) (fault : EvaluationFault) :
    R a { a with messages := ⟨.error, fault.message⟩ :: a.messages }
  note (a : Run) (met : Bool) : R a { a with usedCurrency := a.usedCurrency || met }
  tick (a : Run) : R a { a with ticks := a.ticks + 1 }
  sample {a b : Run} (x : Float) (hab : R { a with binding := some x } b) :
    R a { b with binding := a.binding }

/-- However an evaluation ends, the run before it is related to the run after it. -/
def MovesBy (R : Run → Run → Prop) (x : Evaluation α) : Prop :=
  ∀ a, R a (x.run a).2

namespace Effects

/-- A value changes nothing. -/
theorem pure (hR : Effects R) (v : α) : MovesBy R (pure v) :=
  hR.refl

/-- A halt changes nothing. -/
theorem throw (hR : Effects R) (halt : Halt) : MovesBy R (throw halt : Evaluation α) :=
  hR.refl

/-- Two steps change what the first one changes, and what the second one does from there. -/
theorem bind (hR : Effects R) {x : Evaluation α} {f : α → Evaluation β} (hx : MovesBy R x)
    (hf : ∀ v, MovesBy R (f v)) : MovesBy R (x >>= f) := by
  intro a
  have hfirst := hx a
  rw [run_bind]
  cases hrun : x.run a with
  | mk outcome b =>
    rw [hrun] at hfirst
    cases outcome with
    | ok v => exact hR.trans hfirst (hf v b)
    | error halt => exact hfirst

/-- A fault is reported. -/
theorem fail (hR : Effects R) (fault : EvaluationFault) : MovesBy R (fail fault) :=
  hR.bind (fun a => hR.report a fault) fun _ => hR.pure _

theorem ofResult (hR : Effects R) (result : Except EvaluationFault Quantity) :
    MovesBy R (ofResult result) := by
  cases result with
  | ok q => exact hR.pure q
  | error fault => exact hR.fail fault

end Effects

end Evaluation

namespace Scope

open Evaluation

variable {R : Run → Run → Prop} {scope : Scope}

/-- Every plot of an expression that is put into the slot keeps the relation. -/
def PlotsBy (R : Run → Run → Prop) (scope : Scope) (body : Expr) : Prop :=
  ∀ (lower upper : Float) (points : List (Float × Float)) (a : Run),
    R a { a with plot := a.plot.put (scope.plotPayload body lower upper points) }

/-- If an expression is a call of `plot`, its plots keep the relation. -/
def CallsPlotBy (R : Run → Run → Prop) (scope : Scope) : Expr → Prop
  | .call function (body :: _) => function = "plot" → scope.PlotsBy R body
  | _ => True

theorem movesBy_checkDeadline (hR : Effects R) (scope : Scope) :
    MovesBy R scope.checkDeadline := by
  intro a
  rw [run_checkDeadline]
  exact hR.tick a

theorem movesBy_unitQuantity (hR : Effects R) (scope : Scope) (unit : UnitId) (name : String) :
    MovesBy R (scope.unitQuantity unit name) := by
  unfold unitQuantity
  split
  · exact hR.fail _
  · split
    · exact hR.fail _
    · exact hR.bind (fun a => hR.note a _) fun _ => hR.pure _

theorem movesBy_lookUp (hR : Effects R) (scope : Scope) (name : String) :
    MovesBy R (scope.lookUp name) := by
  unfold lookUp
  split
  · exact hR.pure _
  · split
    · exact movesBy_unitQuantity hR scope _ name
    · split
      · exact hR.pure _
      · exact hR.fail _

theorem movesBy_identifier (hR : Effects R) (scope : Scope) (name : String) :
    MovesBy R (scope.identifier name) := by
  have hbound (value? : Option Float) :
      MovesBy R (value?.elim (scope.lookUp name) fun x => return .number x) := by
    cases value? with
    | none => exact movesBy_lookUp hR scope name
    | some x => exact hR.pure _
  rw [identifier_eq]
  exact fun a => hbound (if name == "x" then a.binding else none) a

theorem movesBy_convert (hR : Effects R) (scope : Scope) (q : Quantity) (name : String) :
    MovesBy R (scope.convert q name) := by
  unfold convert
  split
  · exact hR.pure _
  · split
    · exact hR.fail _
    · refine hR.bind (movesBy_unitQuantity hR scope _ name) fun target => ?_
      split
      · exact hR.pure _
      · split
        · exact hR.pure _
        · exact hR.fail _

/-- The samples of a plot change what a sample changes, and look at the clock. -/
theorem movesBy_samplePoints (hR : Effects R) (scope : Scope) {sample : Evaluation Quantity}
    (hsample : MovesBy R sample) (start width : Float) (count i : Nat)
    (points : List (Float × Float)) :
    MovesBy R (scope.samplePoints sample start width count i points) := by
  induction count generalizing i points with
  | zero => exact hR.pure _
  | succ count ih =>
    exact hR.bind (movesBy_checkDeadline hR scope) fun _ =>
      hR.bind (fun a => hR.sample _ (hsample _)) fun y => ih _ _

/-- A plot is put into the slot at the most once, after all samples. -/
theorem movesBy_plotBetween (hR : Effects R) {body : Expr} (hplots : scope.PlotsBy R body)
    {sample : Evaluation Quantity} (hsample : MovesBy R sample) (lower upper steps : Float) :
    MovesBy R (scope.plotBetween body sample lower upper steps) := by
  unfold plotBetween
  split
  · exact hR.fail _
  · refine hR.bind (movesBy_samplePoints hR scope hsample _ _ _ _ _) fun points => ?_
    have hput : MovesBy R (do
        modify fun run =>
          { run with plot := run.plot.put (scope.plotPayload body lower upper points) }
        return .number 1.0 : Evaluation Quantity) :=
      hR.bind (hplots lower upper points) fun _ => hR.pure _
    split
    · exact hR.bind (hR.throw _) fun _ => hput
    · exact hput

theorem movesBy_evalArguments (hR : Effects R) (function : String) {arguments : List Expr}
    (harguments : ∀ a ∈ arguments, MovesBy R (scope.eval a)) :
    MovesBy R (scope.evalArguments function arguments) := by
  induction arguments with
  | nil =>
    rw [evalArguments]
    exact hR.pure _
  | cons first others ih =>
    rw [evalArguments]
    refine hR.bind (harguments first List.mem_cons_self) fun q => ?_
    split
    · exact hR.bind (fun a => hR.report a _) fun _ => hR.pure _
    · exact hR.bind (ih fun a ha => harguments a (List.mem_cons_of_mem first ha)) fun _ =>
        hR.pure _

theorem movesBy_evalBounds (hR : Effects R) {bounds : List Expr}
    (hbounds : ∀ a ∈ bounds, MovesBy R (scope.eval a)) : MovesBy R (scope.evalBounds bounds) := by
  induction bounds with
  | nil =>
    rw [evalBounds]
    exact hR.pure _
  | cons first others ih =>
    rw [evalBounds]
    refine hR.bind (hbounds first List.mem_cons_self) fun q => ?_
    split
    · exact hR.bind (fun a => hR.report a _) fun _ => hR.pure _
    · exact hR.bind (ih fun a ha => hbounds a (List.mem_cons_of_mem first ha)) fun _ => hR.pure _

/-- A call of `plot` changes what its arguments change, and the slot. -/
theorem movesBy_plot (hR : Effects R) {arguments : List Expr}
    (hplots : ∀ body ∈ arguments.head?, scope.PlotsBy R body)
    (harguments : ∀ a ∈ arguments, MovesBy R (scope.eval a)) :
    MovesBy R (scope.plot arguments) := by
  cases arguments with
  | nil =>
    rw [plot]
    exact hR.fail _
  | cons body bounds =>
    have hbody := harguments body List.mem_cons_self
    have hbounds := movesBy_evalBounds hR fun a ha => harguments a (List.mem_cons_of_mem body ha)
    have hbetween := movesBy_plotBetween hR (hplots body rfl) hbody
    rw [plot]
    split
    · refine hR.bind hbounds fun values => ?_
      split
      · exact hbetween _ _ _
      · exact hbetween _ _ _
      · exact hR.pure _
    · exact hR.fail _

/-- An evaluation keeps the relation if the calls of `plot` inside of the expression do. -/
theorem movesBy_eval (hR : Effects R) {e : Expr} (hplots : e.Everywhere (scope.CallsPlotBy R)) :
    MovesBy R (scope.eval e) := by
  have hdeadline := movesBy_checkDeadline hR scope
  induction hplots with
  | number =>
    rw [eval]
    exact hR.bind hdeadline fun _ => hR.pure _
  | name =>
    rw [eval]
    exact hR.bind hdeadline fun _ => movesBy_identifier hR scope _
  | neg _ _ ih =>
    rw [eval]
    exact hR.bind hdeadline fun _ => hR.bind ih fun _ => hR.pure _
  | binary _ _ _ ihleft ihright =>
    rw [eval]
    exact hR.bind hdeadline fun _ => hR.bind ihleft fun _ => hR.bind ihright fun _ => hR.ofResult _
  | @call function arguments here _ ih =>
    rw [eval]
    refine hR.bind hdeadline fun _ => ?_
    split
    · next hplot =>
      refine movesBy_plot hR (fun body hbody => ?_) ih
      obtain ⟨bounds, rfl⟩ := List.head?_eq_some_iff.mp hbody
      exact here hplot
    · split
      · exact hR.fail _
      · split
        · refine hR.bind (movesBy_evalArguments hR function ih) fun values? => ?_
          split <;> exact hR.pure _
        · exact hR.fail _
  | convert _ _ ih =>
    rw [eval]
    exact hR.bind hdeadline fun _ => hR.bind ih fun q => movesBy_convert hR scope q _

end Scope

end Reckoner
