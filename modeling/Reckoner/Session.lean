import Reckoner.CallError
import Reckoner.Engine
import Reckoner.Settings.Flags

/-!
# Sessions

A session is an engine with its settings and a plot slot. A call on it evaluates one expression:
it starts with no messages and an empty slot, and answers with the newest message and the plot
that the evaluation left.
-/

namespace Reckoner

/-- The answer to a call. -/
structure CallResult where
  /-- The expression as it was read. -/
  input : String
  output : String
  messages : List Diagnostic
  /-- What the expression plotted, if it did. -/
  plot : Option PlotPayload
deriving DecidableEq

/-- Whether one of the diagnostics is an error. -/
def CallResult.hasErrors (r : CallResult) : Bool :=
  r.messages.any fun d => d.severity == .error

/-- The budget of a call that gives none, in milliseconds. -/
def defaultTimeout : Int := 500

/-- The budget of a call in milliseconds, which has to be positive. -/
def checkedTimeout (milliseconds : Int) : Except CallError Nat :=
  if 0 < milliseconds then .ok milliseconds.toNat else .error (.invalidTimeout milliseconds)

/-- Changes settings by a command, which is refused whole when it is not understood. -/
def Settings.setOption (settings : Settings) (command : String) : Except CallError Settings :=
  match Assignment.read? command with
  | some assignment => .ok (assignment.apply settings)
  | none => .error (.invalidSetting (String.ofList (Assignment.normalizedCommand command)))

/-- An engine with the settings and the plot slot that go with it. -/
structure Session (σ : Type) where
  engine : σ
  settings : Settings := {}
  plot : PlotSlot := .empty
deriving Inhabited

namespace Session

variable {σ : Type} [Engine σ]

/-- Evaluates an expression under the settings as they are. -/
def evaluate (session : Session σ) (clock : Clock) (expression : String) (timeout : Int) :
    Except CallError CallResult × Session σ :=
  match checkedTimeout timeout with
  | .error e => (.error e, session)
  | .ok budget =>
      if Engine.isLoaded session.engine then
        let cleared := Engine.clearMessages session.engine
        let text := Engine.normalizeInput cleared session.settings.parse expression
        let run := Engine.evaluateAndFormat cleared clock session.settings budget text .empty
        match run.outcome with
        | .error fault =>
            (.error (.resourceExhausted fault.message),
              { session with engine := run.engine, plot := run.plot })
        | .ok evaluated =>
            let (newest, engine) := Engine.nextMessage run.engine
            (.ok {
                input := evaluated.parsed
                output := evaluated.formatted
                messages := newest.toList.map Diagnostic.ofMessage
                plot := run.plot.payload? },
              { session with engine, plot := run.plot })
      else (.error .engineUnavailable, session)

/-- Applies flags to the settings, where they stay, and evaluates an expression. A timeout that is
refused leaves the settings alone. -/
def calculate (session : Session σ) (clock : Clock) (expression : String) (timeout : Int)
    (flags : CallFlags) : Except CallError CallResult × Session σ :=
  match checkedTimeout timeout with
  | .error e => (.error e, session)
  | .ok _ =>
      ({ session with settings := flags.apply session.settings }).evaluate clock expression timeout

/-- Changes the settings by a command; says whether it was understood. -/
def setOption (session : Session σ) (command : String) : Bool × Session σ :=
  match session.settings.setOption command with
  | .ok settings => (true, { session with settings })
  | .error _ => (false, session)

end Session

end Reckoner
