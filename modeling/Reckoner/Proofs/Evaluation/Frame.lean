import Reckoner.Proofs.Evaluation.Effects
import Reckoner.Proofs.Evaluation.Outcome

/-!
# What an evaluation leaves alone

A plot binds `x` for each of its samples, and a sample may plot again, report faults or run out of
time. However an evaluation ends, its run has the old binding of `x` afterwards and all the messages
and the mark of a currency that it had before. The plot slot is out of reach of an expression in
which nothing is plotted. Both are relations between runs that every change to a run keeps.
-/

namespace Reckoner

open Evaluation

/-- What a run keeps while it goes on: its binding, its messages below the new ones, and the note
that a currency was met. -/
structure Run.Continues (a b : Run) : Prop where
  binding : b.binding = a.binding
  messages : a.messages <:+ b.messages
  usedCurrency : a.usedCurrency = true → b.usedCurrency = true

/-- No change to a run takes away what it keeps. The binding of a sample ends with the sample. -/
theorem effects_continues : Effects Run.Continues where
  refl _ := ⟨rfl, List.suffix_refl _, id⟩
  trans hab hbc :=
    ⟨hbc.binding.trans hab.binding, hab.messages.trans hbc.messages,
      hbc.usedCurrency ∘ hab.usedCurrency⟩
  report _ _ := ⟨rfl, List.suffix_cons _ _, id⟩
  note _ _ := ⟨rfl, List.suffix_refl _, fun hmet => by simp [hmet]⟩
  tick _ := ⟨rfl, List.suffix_refl _, id⟩
  sample _ hab := ⟨rfl, hab.messages, hab.usedCurrency⟩

/-- No change to a run besides plots touches the slot. -/
theorem effects_plot_eq : Effects fun a b => b.plot = a.plot where
  refl _ := rfl
  trans hab hbc := hbc.trans hab
  report _ _ := rfl
  note _ _ := rfl
  tick _ := rfl
  sample _ hab := hab

namespace Scope

/-- A run goes on through every expression, whatever is plotted there. -/
theorem continues_eval (scope : Scope) (e : Expr) : MovesBy Run.Continues (scope.eval e) := by
  refine movesBy_eval effects_continues (.of_forall (fun s => ?_) e)
  unfold CallsPlotBy
  split
  · exact fun _ _ _ _ _ => ⟨rfl, List.suffix_refl _, id⟩
  · trivial

/-- Where nothing is plotted, the slot stays as it is. -/
theorem plot_eq_eval (scope : Scope) {e : Expr} (hplotless : e.Plotless) :
    MovesBy (fun a b => b.plot = a.plot) (scope.eval e) := by
  refine movesBy_eval effects_plot_eq (hplotless.mono fun s hs => ?_)
  unfold CallsPlotBy
  split
  · next arguments => exact fun hplot => absurd (by rw [hplot]) (hs _)
  · trivial

/-- Whether an evaluation comes to a value or halts, also in the middle of a sample of a plot inside
other plots: afterwards `x` is bound as before, the messages from before are the first ones (the
newest message is the head of the list), a currency that was met is still noted, and the slot is as
it was unless the expression has a call of `plot` in it. -/
theorem eval_frame (scope : Scope) (e : Expr) (before : Run) :
    let after := ((scope.eval e).run before).2
    after.binding = before.binding ∧ before.messages <:+ after.messages ∧
      (before.usedCurrency = true → after.usedCurrency = true) ∧
      (e.Plotless → after.plot = before.plot) := by
  intro after
  have hcontinues : before.Continues after := continues_eval scope e before
  exact ⟨hcontinues.binding, hcontinues.messages, hcontinues.usedCurrency,
    fun hplotless => plot_eq_eval scope hplotless before⟩

/-- A plot inside a plot runs out of time at its second sample, where `x` is one. -/
theorem eval_frame_sample :
    let scope : Scope := {
      units := {}, constants := {}, functions := .empty, settings := {},
      clock := .metered 0 1, deadline := 12 }
    let before : Run := {
      binding := some 7, usedCurrency := true, messages := [⟨.warning, "first"⟩],
      plot := ⟨some { commands := "old" }⟩ }
    let inner : Expr := .call "plot" [.name "nobody", .number 0, .number 1, .number 1]
    let outer : Expr := .call "plot" [inner, .number 0, .number 1, .number 2]
    let after := ((scope.eval outer).run before).2
    ((scope.eval outer).run before).1.isOk = false ∧
      after.messages.map Message.text = ["Unknown variable or unit: nobody.", "first"] ∧
      after.binding = some 7 ∧ before.messages <:+ after.messages ∧ after.usedCurrency = true ∧
      (Expr.neg (.name "nobody")).Plotless ∧
      ((scope.eval (.neg (.name "nobody"))).run before).2.plot = before.plot := by
  intro scope before inner outer after
  have hplotless : (Expr.neg (.name "nobody")).Plotless := .neg nofun (.name nofun)
  obtain ⟨hbinding, hmessages, hmet, -⟩ := eval_frame scope outer before
  refine ⟨by decide +kernel, by decide +kernel, hbinding, hmessages, hmet rfl, hplotless, ?_⟩
  exact (eval_frame scope (.neg (.name "nobody")) before).2.2.2 hplotless

end Scope

end Reckoner
