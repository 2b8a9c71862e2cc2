import Reckoner.Proofs.Evaluation.Congruence
import Reckoner.StandardEngine.Definitions
import Mathlib.Data.List.Infix
import Mathlib.Order.Basic

/-!
# Earlier and later deadlines

An evaluation looks at the clock at every node and at every sample of a plot, and all that the
deadline decides is whether it goes on. Under an earlier deadline an evaluation is therefore either
the same as under a later one, or it is cut short, and then it has reported the first of the
messages that the other one reports.
-/

namespace Reckoner

namespace Evaluation

variable {α β : Type}

/-- The first evaluation goes as the second one does, or it is cut short. The second one only adds
to the messages, so that those of an evaluation that was cut short remain the first ones. (The
newest message is the head of the list.) -/
structure Truncates (x y : Evaluation α) : Prop where
  adds (a : Run) : a.messages <:+ (y.run a).2.messages
  eq_or_halts (a : Run) : x.run a = y.run a ∨
    (x.run a).1 = .error .timeout ∧ (x.run a).2.messages <:+ (y.run a).2.messages

namespace Truncates

/-- An evaluation that only adds to the messages is no shorter than itself. -/
theorem refl {x : Evaluation α} (hadds : ∀ a, a.messages <:+ (x.run a).2.messages) :
    Truncates x x :=
  ⟨hadds, fun _ => .inl rfl⟩

/-- The messages of a first step are the first ones of two steps. -/
theorem suffix_bind {y : Evaluation α} {g : α → Evaluation β}
    (hg : ∀ v a, a.messages <:+ ((g v).run a).2.messages) (a : Run) :
    (y.run a).2.messages <:+ ((y >>= g).run a).2.messages := by
  rw [run_bind]
  split
  · next v b hfirst =>
    rw [hfirst]
    exact hg v b
  · next halt b hfirst => rw [hfirst]

/-- Of two steps, either the first one is cut short, or the second one is, or none. -/
theorem bind {x y : Evaluation α} {f g : α → Evaluation β} (hxy : Truncates x y)
    (hfg : ∀ v, Truncates (f v) (g v)) : Truncates (x >>= f) (y >>= g) where
  adds a := (hxy.adds a).trans (suffix_bind (fun v => (hfg v).adds) a)
  eq_or_halts a := by
    have hlater := suffix_bind (y := y) (fun v => (hfg v).adds) a
    rcases hxy.eq_or_halts a with hsame | ⟨hhalts, hmessages⟩
    · rw [run_bind, run_bind, hsame]
      split
      · next v b _ => exact (hfg v).eq_or_halts b
      · exact .inl rfl
    · right
      rw [run_bind x f]
      cases hfirst : x.run a with
      | mk outcome b =>
        rw [hfirst] at hhalts hmessages
        obtain rfl : outcome = .error .timeout := hhalts
        exact ⟨rfl, hmessages.trans hlater⟩

/-- All steps only add to the messages. -/
theorem congruence : Congruence @Truncates where
  pure _ := .refl fun _ => List.suffix_refl _
  throw _ := .refl fun _ => List.suffix_refl _
  bind := bind
  report _ := .refl fun _ => List.suffix_cons _ _
  modify hmessages _ := .refl fun run => by rw [run_modify, hmessages]
  readBinding hfg := {
    adds := fun a => (hfg a.binding).adds a
    eq_or_halts := fun a => (hfg a.binding).eq_or_halts a }
  withBinding hxy value := {
    adds := fun a => hxy.adds { a with binding := some value }
    eq_or_halts := fun a => by
      rw [run_withBinding, run_withBinding]
      rcases hxy.eq_or_halts { a with binding := some value } with hsame | hhalts
      · rw [hsame]
        exact .inl rfl
      · exact .inr hhalts }

end Truncates

end Evaluation

namespace Scope

open Evaluation

/-- The same scope with an earlier deadline. -/
structure Sooner (s t : Scope) : Prop where
  deadline_le : s.deadline ≤ t.deadline
  eq : t = { s with deadline := t.deadline }

variable {s t : Scope}

/-- At an earlier deadline an evaluation halts, or it is not yet at the later one. -/
theorem Sooner.checkDeadline (hst : s.Sooner t) :
    Truncates s.checkDeadline t.checkDeadline where
  adds a := by rw [run_checkDeadline]
  eq_or_halts a := by
    have hclock : t.clock = s.clock := by rw [hst.eq]
    have hdeadline := hst.deadline_le
    rw [run_checkDeadline, run_checkDeadline, hclock]
    by_cases hlate : s.deadline ≤ s.clock.reading a.ticks
    · rw [if_pos hlate]
      exact .inr ⟨rfl, List.suffix_refl _⟩
    · rw [if_neg hlate, if_neg (by omega)]
      exact .inl rfl

/-- An evaluation under an earlier deadline is the same as under a later one, or it is cut short. -/
theorem Sooner.eval (hst : s.Sooner t) (e : Expr) : Truncates (s.eval e) (t.eval e) := by
  have hrelated : s.Related @Truncates t := {
    congruence := Truncates.congruence
    constants_eq := by rw [hst.eq]
    functions_eq := by rw [hst.eq]
    settings_eq := by rw [hst.eq]
    checkDeadline := hst.checkDeadline }
  refine hrelated.eval fun name _ => ?_
  rw [hst.eq]
  exact ⟨rfl, fun _ _ => rfl⟩

end Scope

namespace StandardEngine

variable {engine : StandardEngine} {clock : Clock} {settings : Settings} {budget budget' : Nat}
  {text : String} {plot : PlotSlot} {e : Expr}

/-- With a smaller budget an evaluation goes the same way, or it runs out of time, and then its
messages are the first of those that it has with the larger budget. -/
theorem evaluate_budget_le (hle : budget ≤ budget') (start : Run) :
    engine.evaluate settings clock budget start e = engine.evaluate settings clock budget' start e ∨
      (engine.evaluate settings clock budget start e).1 = .error .timeout ∧
        (engine.evaluate settings clock budget start e).2.messages <:+
          (engine.evaluate settings clock budget' start e).2.messages := by
  have hdeadline : clock.reading start.ticks + budget * millisecond ≤
      clock.reading start.ticks + budget' * millisecond := by
    unfold millisecond
    omega
  have hsooner :
      (engine.scope settings clock (clock.reading start.ticks + budget * millisecond)).Sooner
        (engine.scope settings clock (clock.reading start.ticks + budget' * millisecond)) :=
    ⟨hdeadline, rfl⟩
  exact (hsooner.eval e).eq_or_halts { start with ticks := start.ticks + 1 }

/-- An engine has taken over the messages of a run: after those that it had before come the warning
about stale rates, if there is one, the messages of the run, and then some last ones. (The newest
message is the head of the list.) -/
def Reported (before : StandardEngine) (run : Run) (last : List Message)
    (after : StandardEngine) : Prop :=
  ∃ warnings ∈ [[], [staleRatesMessage]],
    after.messages = last ++ run.messages ++ warnings ++ before.messages

/-- The warning about stale rates stands alone. -/
theorem warnings_mem (isStale : Bool) :
    (if isStale then [staleRatesMessage] else []) ∈ [[], [staleRatesMessage]] := by
  cases isStale <;> simp

/-- An evaluation that comes to its end adds no message to its own. -/
theorem reported_of_ok (hparse : Expr.parse text = .ok e) {q : Quantity} {run : Run}
    (hrun : engine.evaluate settings clock budget { plot } e = (.ok q, run)) :
    engine.Reported run [] (engine.evaluateAndFormat clock settings budget text plot).engine := by
  unfold evaluateAndFormat
  rw [hparse]
  dsimp only
  rw [hrun]
  exact ⟨_, warnings_mem _, rfl⟩

/-- An evaluation that runs out of time has no text, and says so last. -/
theorem reported_of_timeout (hparse : Expr.parse text = .ok e) {run : Run}
    (hrun : engine.evaluate settings clock budget { plot } e = (.error .timeout, run)) :
    (engine.evaluateAndFormat clock settings budget text plot).outcome =
        .ok ⟨e.echo settings.print.useUnicodeSigns, ""⟩ ∧
      engine.Reported run [timeoutMessage]
        (engine.evaluateAndFormat clock settings budget text plot).engine := by
  unfold evaluateAndFormat
  rw [hparse]
  dsimp only
  rw [hrun]
  exact ⟨rfl, _, warnings_mem _, rfl⟩

/-- All messages of an evaluation reach the engine. -/
theorem exists_reported (hparse : Expr.parse text = .ok e) :
    ∃ last, engine.Reported (engine.evaluate settings clock budget { plot } e).2 last
      (engine.evaluateAndFormat clock settings budget text plot).engine := by
  cases hrun : engine.evaluate settings clock budget { plot } e with
  | mk outcome run =>
    cases outcome with
    | ok q => exact ⟨[], reported_of_ok hparse hrun⟩
    | error halt =>
      cases halt
      exact ⟨[timeoutMessage], (reported_of_timeout hparse hrun).2⟩

/-- Evaluations that end alike are answered alike. -/
theorem evaluateAndFormat_congr (hparse : Expr.parse text = .ok e)
    (hsame : engine.evaluate settings clock budget { plot } e =
      engine.evaluate settings clock budget' { plot } e) :
    engine.evaluateAndFormat clock settings budget text plot =
      engine.evaluateAndFormat clock settings budget' text plot := by
  unfold evaluateAndFormat
  rw [hparse]
  dsimp only
  rw [hsame]

/-- A larger budget never changes an answer, and a smaller one can only replace it by the message
that the time is up. An evaluation that comes to its end within the smaller budget has the same
text, messages, plot and engine with the larger one. One that does not has no text, its newest
message is the one about the time, and its own messages before that are the first of those that it
has with the larger budget. -/
theorem evaluateAndFormat_budget_le (hparse : Expr.parse text = .ok e) (hle : budget ≤ budget') :
    let own := engine.evaluate settings clock budget { plot } e
    let own' := engine.evaluate settings clock budget' { plot } e
    let answer := engine.evaluateAndFormat clock settings budget text plot
    let answer' := engine.evaluateAndFormat clock settings budget' text plot
    (own.1 ≠ .error .timeout → answer = answer') ∧
      (own.1 = .error .timeout →
        answer.outcome = .ok ⟨e.echo settings.print.useUnicodeSigns, ""⟩ ∧
          engine.Reported own.2 [timeoutMessage] answer.engine ∧
          own.2.messages <:+ own'.2.messages ∧
          ∃ last, engine.Reported own'.2 last answer'.engine) := by
  intro own own' answer answer'
  have hcut : own = own' ∨
      own.1 = .error .timeout ∧ own.2.messages <:+ own'.2.messages := evaluate_budget_le hle _
  constructor
  · intro hends
    rcases hcut with hsame | ⟨hhalts, -⟩
    · exact evaluateAndFormat_congr hparse hsame
    · exact absurd hhalts hends
  · intro hhalts
    have hown : engine.evaluate settings clock budget { plot } e = (.error .timeout, own.2) :=
      Prod.ext hhalts rfl
    obtain ⟨htext, hreported⟩ := reported_of_timeout hparse hown
    have hfirst : own.2.messages <:+ own'.2.messages := by
      rcases hcut with hsame | ⟨-, hmessages⟩
      · rw [hsame]
      · exact hmessages
    exact ⟨htext, hreported, hfirst, exists_reported hparse⟩

/-- With a reading of the clock every 0.4 milliseconds, one millisecond is enough to find the first
of two unknown names and two are enough to find both. -/
theorem evaluateAndFormat_budget_le_unknowns :
    let clock := Clock.metered 0 400000
    let e := Expr.binary .add (.name "foo") (.name "bar")
    let own (budget : Nat) := withDefinitions.evaluate {} clock budget { plot := .empty } e
    let answer (budget : Nat) :=
      withDefinitions.evaluateAndFormat clock {} budget "foo + bar" .empty
    Expr.parse "foo + bar" = .ok e ∧ 1 ≤ 2 ∧ 2 ≤ 3 ∧ (own 1).1 = .error .timeout ∧
      (answer 1).outcome = .ok ⟨"foo + bar", ""⟩ ∧
      withDefinitions.Reported (own 1).2 [timeoutMessage] (answer 1).engine ∧
      (own 1).2.messages <:+ (own 2).2.messages ∧
      (own 1).2.messages.length = 1 ∧ (own 2).2.messages.length = 2 ∧ answer 2 = answer 3 := by
  intro clock e own answer
  have hparse : Expr.parse "foo + bar" = .ok e := by decide +kernel
  have hlate : (own 1).1 = .error .timeout := by rfl
  have hends : (own 2).1 ≠ .error .timeout := by
    have hok : (own 2).1.isOk = true := by decide +kernel
    intro hhalts
    rw [hhalts] at hok
    cases hok
  obtain ⟨-, hcut⟩ :=
    @evaluateAndFormat_budget_le withDefinitions clock {} 1 2 _ .empty e hparse (by decide)
  obtain ⟨hsame, -⟩ :=
    @evaluateAndFormat_budget_le withDefinitions clock {} 2 3 _ .empty e hparse (by decide)
  obtain ⟨htext, hreported, hfirst, -⟩ := hcut hlate
  exact ⟨hparse, by decide, by decide, hlate, htext, hreported, hfirst, by decide +kernel,
    by decide +kernel, hsame hends⟩

end StandardEngine

end Reckoner
