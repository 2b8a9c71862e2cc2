import Reckoner.Main
import Reckoner.Interchange.Settings
import Reckoner.Proofs.Expr.Allowance
import Reckoner.Proofs.Expr.Depth
import Reckoner.Proofs.Session.Isolation
import Reckoner.Proofs.Binary64.Bits
import Reckoner.Proofs.Binary64.Nearest
import Reckoner.Proofs.Decimal.Value
import Reckoner.Proofs.Decimal.Shortest
import Reckoner.Proofs.Expr.EchoForm
import Reckoner.Proofs.Decimal.PlainText
import Reckoner.Proofs.Expr.EchoReading
import Reckoner.Proofs.Expr.Meaning
import Reckoner.Proofs.Expr.EchoRoundTrip
import Reckoner.Proofs.Evaluation.Agreement
import Reckoner.Proofs.Expr.Deepest
import Reckoner.Proofs.Rates.Batch
import Reckoner.Proofs.Rates.Reload
import Reckoner.Proofs.Rates.Reapplied
import Reckoner.Proofs.Evaluation.Deadline
import Reckoner.Proofs.Evaluation.Shown
import Reckoner.Proofs.Rates.Anchored
import Reckoner.Proofs.Expr.Recognition
import Reckoner.Proofs.Binary64.Arithmetic
import Reckoner.Proofs.Evaluation.Outcome
import Reckoner.Proofs.Evaluation.Undefined
import Reckoner.Proofs.Evaluation.Uncertainty
import Reckoner.Proofs.Rates.Stored
import Reckoner.Proofs.Rates.Refreshed
import Reckoner.Proofs.Rates.Usable
import Reckoner.Proofs.Rates.Outcomes
import Reckoner.Proofs.Evaluation.Renumbering
import Reckoner.Proofs.Rates.Permuted
import Reckoner.Proofs.Rates.Dialogue
import Reckoner.Proofs.Answer.Text
import Reckoner.Proofs.Session.Answered
import Reckoner.Proofs.Evaluation.Staleness
import Reckoner.Proofs.Binary64.Rounded
import Reckoner.Proofs.Binary64.Unpacked
import Reckoner.Proofs.Binary64.Packed
import Reckoner.Proofs.Binary64.Operations
import Reckoner.Proofs.Evaluation.Sampled
import Reckoner.Proofs.Answer.Numeral
import Reckoner.Proofs.Answer.Accuracy
import Reckoner.Proofs.Answer.Places
import Reckoner.Proofs.Answer.Repetition
import Reckoner.Proofs.Answer.Radix
import Reckoner.Proofs.Session.Interactions
import Reckoner.Proofs.Answer.Grouping
import Reckoner.Proofs.Answer.Interval
import Reckoner.Proofs.Expr.EchoCharacters
import Reckoner.Proofs.Evaluation.Effects
import Reckoner.Proofs.Session.PlotScript
import Reckoner.Proofs.Evaluation.Commuted
import Reckoner.Proofs.Expr.EchoNormalized
import Reckoner.Proofs.Decimal.Rounded
import Reckoner.Proofs.Json.Number
import Reckoner.Proofs.Rates.Numeric
import Reckoner.Proofs.Answer.NegativeZero
import Reckoner.Proofs.Plot.Series
import Reckoner.Proofs.Settings.Assignment
import Reckoner.Proofs.Settings.Command
import Reckoner.Proofs.Session.Flags
import Reckoner.Proofs.Units.Frame
import Reckoner.Proofs.Evaluation.Frame
import Reckoner.Proofs.Catalog.Entries
import Reckoner.Proofs.CommandLine.Rates
import Reckoner.Proofs.Interchange.Result
import Reckoner.Proofs.Expr.CursorSafety
import Reckoner.Proofs.Units.Root
