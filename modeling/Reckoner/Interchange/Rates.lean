import Reckoner.Json.Number
import Reckoner.Rates

/-!
# Rates as JSON

A table of rates is an array of rows. The rate of a row may go by either of two names and may be a
text or a number; a number is kept as the text that the format writes for it.
-/

namespace Reckoner

namespace RateRow

/-- A row, its rate as a text. -/
def toJson (row : RateRow) : Json :=
  .object [("name", .string row.name), ("rate", .string row.rate)]

/-- The text of a rate. -/
def rateText? : Json → Option String
  | .string text => some text
  | .number n => some n.text
  | _ => none

/-- Reads a row. One that gives its rate under both names is refused. -/
def ofJson? (json : Json) : Option RateRow := do
  match ← json.record? [["name"], ["rate", "value"]] with
  | [some name, some rate] => return ⟨← name.string?, ← rateText? rate⟩
  | _ => none

/-- Reads a whole table. -/
def tableOfJson? (json : Json) : Option (List RateRow) :=
  json.list? ofJson?

end RateRow

namespace SkippedRow

/-- The place and the name of a row that was skipped. -/
def toJson (row : SkippedRow) : Json :=
  .object [("index", .nat row.index), ("name", .string row.name)]

/-- Reads a skipped row. -/
def ofJson? (json : Json) : Option SkippedRow := do
  match ← json.record? [["index"], ["name"]] with
  | [some index, some name] => return ⟨← index.natBelow? (Nat.pow 2 64), ← name.string?⟩
  | _ => none

end SkippedRow

namespace RateReport

/-- A report with its three lists of rows. -/
def toJson (report : RateReport) : Json :=
  .object [("base_accepted", .bool report.baseAccepted), ("created", .strings report.created),
    ("updated", .strings report.updated),
    ("skipped", .array (report.skipped.map SkippedRow.toJson))]

/-- Reads a report; all fields are needed. -/
def ofJson? (json : Json) : Option RateReport := do
  match ← json.record? [["base_accepted"], ["created"], ["updated"], ["skipped"]] with
  | [some baseAccepted, some created, some updated, some skipped] =>
      return {
        baseAccepted := ← baseAccepted.bool?
        created := ← created.list? Json.string?
        updated := ← updated.list? Json.string?
        skipped := ← skipped.list? SkippedRow.ofJson? }
  | _ => none

end RateReport

end Reckoner
