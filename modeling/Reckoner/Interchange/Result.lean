import Reckoner.Json
import Reckoner.Session

/-!
# Results as JSON

The answer to a call with its diagnostics and its plot. The field of the plot is there exactly when
there is a plot; reading takes a missing field and an empty one alike.
-/

namespace Reckoner

namespace Severity

/-- The severity of that name. -/
def ofName? : String → Option Severity
  | "Info" => some .info
  | "Warning" => some .warning
  | "Error" => some .error
  | _ => none

/-- The name of a severity. -/
def toJson (s : Severity) : Json :=
  .string s.name

/-- Reads a severity by its name. -/
def ofJson? (json : Json) : Option Severity := do
  ofName? (← json.case?)

end Severity

namespace Diagnostic

/-- A diagnostic with its severity and its text. -/
def toJson (d : Diagnostic) : Json :=
  .object [("severity", d.severity.toJson), ("text", .string d.text)]

/-- Reads a diagnostic. -/
def ofJson? (json : Json) : Option Diagnostic := do
  match ← json.record? [["severity"], ["text"]] with
  | [some severity, some text] => return ⟨← Severity.ofJson? severity, ← text.string?⟩
  | _ => none

end Diagnostic

namespace SeriesTable

/-- The series as fields of an object, in the order of their names. -/
def toJson (table : SeriesTable) : Json :=
  .object (table.entries.map fun (name, points) => (name, .string points))

/-- Reads a table from an object; of two series of one name the later is kept. -/
def ofJson? : Json → Option SeriesTable
  | .object fields => do
      let series ← fields.mapM fun (name, points) => return (name, ← points.string?)
      return ofList series
  | _ => none

end SeriesTable

namespace PlotPayload

/-- A plot with its series and its commands. -/
def toJson (payload : PlotPayload) : Json :=
  .object [("data", payload.data.toJson), ("commands", .string payload.commands)]

/-- Reads a plot. -/
def ofJson? (json : Json) : Option PlotPayload := do
  match ← json.record? [["data"], ["commands"]] with
  | [some data, some commands] =>
      return { data := ← SeriesTable.ofJson? data, commands := ← commands.string? }
  | _ => none

/-- Reads a plot that may be missing or empty. -/
def ofField? : Option Json → Option (Option PlotPayload)
  | none => some none
  | some .null => some none
  | some json => (ofJson? json).map some

end PlotPayload

namespace CallResult

/-- An answer. Its last field is there exactly when there is a plot. -/
def toJson (r : CallResult) : Json :=
  .object <|
    [("input", .string r.input), ("output", .string r.output),
      ("messages", .array (r.messages.map Diagnostic.toJson))] ++
    match r.plot with
    | none => []
    | some payload => [("plot", payload.toJson)]

/-- Reads an answer; only its plot may be missing. -/
def ofJson? (json : Json) : Option CallResult := do
  match ← json.record? [["input"], ["output"], ["messages"], ["plot"]] with
  | [some input, some output, some messages, plot] =>
      return {
        input := ← input.string?
        output := ← output.string?
        messages := ← messages.list? Diagnostic.ofJson?
        plot := ← PlotPayload.ofField? plot }
  | _ => none

end CallResult

end Reckoner
