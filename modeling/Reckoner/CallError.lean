/-!
# Failed calls

What can go wrong with a call itself. Everything that goes wrong inside an evaluation is reported
as a diagnostic instead.
-/

namespace Reckoner

/-- Why a call failed. -/
inductive CallError where
  | invalidTimeout (milliseconds : Int)
  | engineUnavailable
  | resourceExhausted (what : String)
  | invalidSetting (command : String)
deriving DecidableEq

/-- The text of a failure. -/
def CallError.message : CallError → String
  | .invalidTimeout milliseconds =>
      "timeout must be a positive number of milliseconds, got " ++ toString milliseconds
  | .engineUnavailable => "expression engine is not initialized"
  | .resourceExhausted what => "engine resource exhausted: " ++ what
  | .invalidSetting command => "invalid option: " ++ command

end Reckoner
