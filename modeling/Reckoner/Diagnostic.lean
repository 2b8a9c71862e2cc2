/-!
# Messages and diagnostics

An engine reports what went wrong, or what a reader should know, as messages with a kind of their
own. A caller sees diagnostics, which know three severities; a kind that is none of
them counts as an error.
-/

namespace Reckoner

/-- The kind of a message as an engine reports it. -/
inductive MessageKind where
  | information
  | warning
  | error
  | other (level : UInt8)
deriving DecidableEq, Inhabited

/-- A message of an engine. -/
structure Message where
  kind : MessageKind
  text : String
deriving DecidableEq, Inhabited

/-- How serious a diagnostic is. -/
inductive Severity where
  | info
  | warning
  | error
deriving DecidableEq, Inhabited

namespace Severity

/-- The severity of a kind of message. -/
def ofKind : MessageKind → Severity
  | .information => .info
  | .warning => .warning
  | .error => .error
  | .other _ => .error

/-- The name of a severity. -/
def name : Severity → String
  | .info => "Info"
  | .warning => "Warning"
  | .error => "Error"

end Severity

/-- What a caller is told about a call. -/
structure Diagnostic where
  severity : Severity
  text : String
deriving DecidableEq, Inhabited

namespace Diagnostic

/-- The diagnostic that a message becomes. -/
def ofMessage (message : Message) : Diagnostic :=
  ⟨Severity.ofKind message.kind, message.text⟩

/-- A diagnostic on one line. -/
def line (d : Diagnostic) : String :=
  d.severity.name ++ ": " ++ d.text

end Diagnostic

end Reckoner
