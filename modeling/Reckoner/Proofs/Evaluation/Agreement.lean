import Reckoner.Proofs.Evaluation.Congruence

/-!
# Evaluations that agree

The clock decides when an evaluation halts, and nothing else. This file compares two evaluations of
one expression: where one of them finishes, another one that is never late finishes with the same
value and the same messages, provided that the names in the expression stand for the same units.
-/

namespace Reckoner

/-- Two runs that differ in no more than how often they looked at the clock. -/
def Run.SameButTicks (a b : Run) : Prop :=
  ∃ ticks, b = { a with ticks }

namespace Evaluation

variable {α β : Type}

/-- Where the first evaluation finishes, the second one finishes with the same value. They may look
at the clock at different times. -/
def Carries (x y : Evaluation α) : Prop :=
  ∀ ⦃a b v a'⦄, Run.SameButTicks a b → x.run a = (.ok v, a') →
    ∃ b', y.run b = (.ok v, b') ∧ Run.SameButTicks a' b'

namespace Carries

/-- A value that is there already is carried over. -/
theorem pure (v : α) : Carries (pure v) (pure v) := by
  intro a b w a' hab hrun
  obtain ⟨hvalue, rfl⟩ := Prod.mk.inj hrun
  obtain rfl := Except.ok.inj hvalue
  exact ⟨b, rfl, hab⟩

/-- What halts need not be carried over. -/
theorem throw (halt : Halt) (y : Evaluation α) : Carries (throw halt) y := by
  intro a b w a' _ hrun
  cases (Prod.mk.inj hrun).1

/-- Steps are carried over one after another. -/
theorem bind {x y : Evaluation α} {f g : α → Evaluation β} (hxy : Carries x y)
    (hfg : ∀ v, Carries (f v) (g v)) : Carries (x >>= f) (y >>= g) := by
  intro a b w a' hab hrun
  rw [run_bind] at hrun
  split at hrun
  · next v c hfirst =>
    obtain ⟨d, hsecond, hcd⟩ := hxy hab hfirst
    obtain ⟨b', hlast, hb'⟩ := hfg v hcd hrun
    exact ⟨b', by rw [run_bind, hsecond]; exact hlast, hb'⟩
  · cases (Prod.mk.inj hrun).1

/-- What looks at the binding of `x` first is carried over. -/
theorem readBinding {f g : Option Float → Evaluation α}
    (hfg : ∀ value?, Carries (f value?) (g value?)) :
    Carries (do f (← get).binding) (do g (← get).binding) := by
  rintro a b v a' ⟨ticks, rfl⟩ hrun
  rw [run_bind] at hrun ⊢
  exact hfg a.binding ⟨ticks, rfl⟩ hrun

/-- A change to the run that neither reads nor changes the ticks is carried over. -/
theorem modify {change : Run → Run}
    (hchange : ∀ run ticks, change { run with ticks } = { change run with ticks }) :
    Carries (modify change : Evaluation Unit) (modify change) := by
  rintro a b w a' ⟨ticks, rfl⟩ hrun
  obtain ⟨-, rfl⟩ := Prod.mk.inj hrun
  exact ⟨change { a with ticks }, rfl, ticks, hchange a ticks⟩

/-- Reporting a fault is carried over. -/
theorem report (fault : EvaluationFault) : Carries (report fault) (report fault) :=
  modify fun _ _ => rfl

/-- What is carried over without a binding of `x` is carried over with one. -/
theorem withBinding {x y : Evaluation α} (hxy : Carries x y) (value : Float) :
    Carries (withBinding value x) (withBinding value y) := by
  rintro a b w a' ⟨ticks, rfl⟩ hrun
  obtain ⟨hvalue, rfl⟩ := Prod.mk.inj hrun
  have hbound : Run.SameButTicks { a with binding := some value }
      { a with ticks, binding := some value } := ⟨ticks, rfl⟩
  obtain ⟨b', hlast, ticks', hb'⟩ := hxy hbound (Prod.ext hvalue rfl)
  refine ⟨{ b' with binding := a.binding }, ?_, ticks', by rw [hb']; rfl⟩
  show ((y.run _).1, { (y.run _).2 with binding := a.binding }) = _
  rw [hlast]

/-- All steps are carried over to themselves. -/
theorem congruence : Congruence @Carries where
  pure := pure
  throw halt := throw halt _
  bind := bind
  report := report
  modify _ hticks := modify hticks
  readBinding := readBinding
  withBinding := withBinding

end Carries

end Evaluation

namespace Scope

open Evaluation

/-- A scope whose deadline is never reached. -/
def Patient (t : Scope) : Prop :=
  ∀ n, t.clock.reading n < t.deadline

/-- Two scopes that differ in their clocks and units at the most, where the second one is never
late. -/
structure Relaxes (s t : Scope) : Prop where
  constants_eq : s.constants = t.constants
  functions_eq : s.functions = t.functions
  settings_eq : s.settings = t.settings
  patient : t.Patient

variable {s t : Scope}

/-- A patient scope goes on at every look at the clock. -/
theorem Relaxes.checkDeadline (hst : s.Relaxes t) : Carries s.checkDeadline t.checkDeadline := by
  rintro a b v a' ⟨ticks, rfl⟩ hrun
  have hnext : t.checkDeadline.run { a with ticks } = (.ok (), { a with ticks := ticks + 1 }) := by
    rw [run_checkDeadline, if_neg (Int.not_le.mpr (hst.patient ticks))]
  rw [run_checkDeadline] at hrun
  obtain ⟨-, rfl⟩ := Prod.mk.inj hrun
  exact ⟨_, hnext, ticks + 1, rfl⟩

/-- An expression is carried over if all of its names are. -/
theorem Relaxes.eval (hst : s.Relaxes t) {e : Expr} (he : ∀ name ∈ e.mentions, s.SameUnit t name) :
    Carries (s.eval e) (t.eval e) := by
  have hrelated : s.Related @Carries t := {
    congruence := Carries.congruence
    constants_eq := hst.constants_eq
    functions_eq := hst.functions_eq
    settings_eq := hst.settings_eq
    checkDeadline := hst.checkDeadline }
  exact hrelated.eval he

end Scope

end Reckoner
