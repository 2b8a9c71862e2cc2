import Reckoner.Session
import Reckoner.StandardEngine

/-!
# Calls leave no trace

A call reports messages and may fill the plot slot, and what it left there is still there when the
next call begins. This file proves that no later call can tell: of the engine a call changes
nothing but the messages not yet taken, and what a call answers depends neither on those nor on the
slot. Both are facts about one call first, and then about any sequence of calls.
-/

namespace Reckoner

namespace StandardEngine

/-- Two engines that differ in no more than the messages not yet taken. -/
def SameDefinitions (a b : StandardEngine) : Prop :=
  ∃ messages, b = { a with messages }

/-- An engine has its own definitions. -/
theorem SameDefinitions.refl (engine : StandardEngine) : engine.SameDefinitions engine :=
  ⟨engine.messages, rfl⟩

/-- Whether two engines differ in their messages alone does not hang on their order. -/
theorem SameDefinitions.symm {a b : StandardEngine} (hab : a.SameDefinitions b) :
    b.SameDefinitions a := by
  obtain ⟨_, rfl⟩ := hab
  exact ⟨a.messages, rfl⟩

/-- The messages of the engine in the middle do not matter. -/
theorem SameDefinitions.trans {a b c : StandardEngine} (hab : a.SameDefinitions b)
    (hbc : b.SameDefinitions c) : a.SameDefinitions c := by
  obtain ⟨_, rfl⟩ := hab
  obtain ⟨messages, rfl⟩ := hbc
  exact ⟨messages, rfl⟩

/-- Once their messages are cleared, two such engines are the same. -/
theorem SameDefinitions.cleared {a b : StandardEngine} (hab : a.SameDefinitions b) :
    Engine.clearMessages b = Engine.clearMessages a := by
  obtain ⟨_, rfl⟩ := hab
  rfl

/-- Clearing the messages keeps the definitions. -/
theorem sameDefinitions_clearMessages (engine : StandardEngine) :
    engine.SameDefinitions (Engine.clearMessages engine) :=
  ⟨[], rfl⟩

/-- Reading and evaluating a text keeps the definitions, whether it is an expression, whether it
nests too deeply, and whether the time is enough. -/
theorem sameDefinitions_evaluateAndFormat (engine : StandardEngine) (clock : Clock)
    (settings : Settings) (budget : Nat) (text : String) (plot : PlotSlot) :
    engine.SameDefinitions
      (Engine.evaluateAndFormat engine clock settings budget text plot).engine := by
  change engine.SameDefinitions (evaluateAndFormat engine clock settings budget text plot).engine
  unfold evaluateAndFormat
  split
  · exact .refl engine
  · exact ⟨_, rfl⟩
  · dsimp only
    split
    · exact ⟨_, rfl⟩
    · exact ⟨_, rfl⟩

/-- Taking a message keeps the definitions. -/
theorem sameDefinitions_nextMessage (engine : StandardEngine) :
    engine.SameDefinitions (Engine.nextMessage engine).2 := by
  change engine.SameDefinitions (nextMessage engine).2
  unfold nextMessage
  split
  · exact .refl engine
  · exact ⟨_, rfl⟩

end StandardEngine

/-- A call on a session, with the readings of the clock that it meets. -/
structure Call where
  clock : Clock
  expression : String
  timeout : Int
  flags : CallFlags

namespace Session

section AnyEngine

variable {σ : Type} [Engine σ]

/-- Carries out a call. -/
def call (session : Session σ) (c : Call) : Except CallError CallResult × Session σ :=
  session.calculate c.clock c.expression c.timeout c.flags

/-- The session after some calls, one after another. -/
def afterCalls (session : Session σ) (calls : List Call) : Session σ :=
  calls.foldl (fun s c => (s.call c).2) session

end AnyEngine

open StandardEngine

/-- One evaluation keeps the definitions of the engine, however it ends. -/
theorem sameDefinitions_evaluate (session : Session StandardEngine) (clock : Clock)
    (expression : String) (timeout : Int) :
    session.engine.SameDefinitions (session.evaluate clock expression timeout).2.engine := by
  unfold evaluate
  cases checkedTimeout timeout with
  | error e => exact .refl _
  | ok budget =>
    dsimp only
    split
    · have hrun := (sameDefinitions_clearMessages session.engine).trans
        (sameDefinitions_evaluateAndFormat _ clock session.settings budget
          (Engine.normalizeInput (Engine.clearMessages session.engine) session.settings.parse
            expression) .empty)
      generalize Engine.evaluateAndFormat (Engine.clearMessages session.engine) _ _ _ _ _ = run
        at hrun ⊢
      obtain ⟨outcome, plot, engine⟩ := run
      cases outcome with
      | error fault => exact hrun
      | ok evaluated => exact hrun.trans (sameDefinitions_nextMessage engine)
    · exact .refl _

/-- The answer of an evaluation depends neither on the messages that earlier ones left in the engine
nor on the plot that they left in the slot. -/
theorem evaluate_answer_eq {a b : Session StandardEngine}
    (hengine : a.engine.SameDefinitions b.engine) (hsettings : a.settings = b.settings)
    (clock : Clock) (expression : String) (timeout : Int) :
    (a.evaluate clock expression timeout).1 = (b.evaluate clock expression timeout).1 := by
  have hcleared := hengine.cleared
  obtain ⟨messages, hb⟩ := hengine
  have hloaded : Engine.isLoaded b.engine = Engine.isLoaded a.engine := by rw [hb]; rfl
  unfold evaluate
  cases checkedTimeout timeout with
  | error e => rfl
  | ok budget =>
    simp only [hloaded, hcleared, hsettings]
    split
    · split <;> rfl
    · rfl

/-- One call keeps the definitions of the engine, also when it fails. -/
theorem sameDefinitions_call (session : Session StandardEngine) (c : Call) :
    session.engine.SameDefinitions (session.call c).2.engine := by
  unfold call calculate
  split
  · exact .refl _
  · exact sameDefinitions_evaluate { session with settings := c.flags.apply session.settings } ..

/-- The answer of a call depends on no more than the definitions and the settings. -/
theorem call_answer_eq {a b : Session StandardEngine}
    (hengine : a.engine.SameDefinitions b.engine) (hsettings : a.settings = b.settings)
    (c : Call) : (a.call c).1 = (b.call c).1 := by
  unfold call calculate
  cases checkedTimeout c.timeout with
  | error e => rfl
  | ok budget =>
    exact evaluate_answer_eq (a := { a with settings := c.flags.apply a.settings })
      (b := { b with settings := c.flags.apply b.settings }) hengine (by simp only [hsettings]) ..

/-- Any sequence of calls keeps the definitions of the engine. -/
theorem sameDefinitions_afterCalls (session : Session StandardEngine) (calls : List Call) :
    session.engine.SameDefinitions (session.afterCalls calls).engine := by
  induction calls generalizing session with
  | nil => exact .refl _
  | cons c calls ih => exact (sameDefinitions_call session c).trans (ih (session.call c).2)

/-- After any sequence of calls, the engine differs from the one before in nothing but the messages
not yet taken, and the next call answers as it would on a session with the same settings that made
none of these calls, whatever messages and whatever plot that session holds. -/
theorem afterCalls_leave_no_trace (session : Session StandardEngine) (calls : List Call) :
    (∃ messages, (session.afterCalls calls).engine = { session.engine with messages }) ∧
      ∀ (next : Call) (messages : List Message) (plot : PlotSlot),
        ((session.afterCalls calls).call next).1 =
          (Session.call
            { engine := { session.engine with messages }
              settings := (session.afterCalls calls).settings
              plot } next).1 := by
  have hkept := sameDefinitions_afterCalls session calls
  refine ⟨hkept, fun next messages plot => ?_⟩
  have hfresh : (session.afterCalls calls).engine.SameDefinitions
      { session.engine with messages } := hkept.symm.trans ⟨messages, rfl⟩
  apply call_answer_eq
  · exact hfresh
  · rfl

end Session

end Reckoner
