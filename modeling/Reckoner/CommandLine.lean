import Reckoner.Calculator
import Reckoner.CommandLine.Arguments
import Reckoner.Interchange.Catalog
import Reckoner.Interchange.Rates
import Reckoner.Interchange.Result
import Reckoner.Json.Printer
import Reckoner.Json.Reader

/-!
# The command line

What an invocation writes and with which code it exits. Results go to the output as JSON, and what
goes wrong with a call goes to the errors. Exit code 1 is a failure, 2 a batch of rates that
was not applied whole. An invocation may make several calls, of which each meets readings of the
clock of its own.
-/

namespace Reckoner.CommandLine

/-- What a run of the program leaves. -/
structure Transcript where
  exitCode : Nat := 0
  output : String := ""
  errors : String := ""
deriving DecidableEq, Inhabited

namespace Transcript

/-- A text on a line of its own. -/
def line (text : String) : String :=
  text ++ "\n"

/-- A run that only fails. -/
def failure (text : String) : Transcript :=
  { exitCode := 1, errors := line text }

/-- A run that only prints a value. -/
def printed (json : Json) : Transcript :=
  { output := line json.pretty }

end Transcript

open Transcript (line failure printed)

/-- The results of the longest run of expressions at the front that can be called, the error of the
first that cannot, and the calculator afterwards. -/
def callAll (clocks : Nat → Clock) (timeout : Int) (flags : CallFlags) (calculator : Calculator) :
    List String → List CallResult × Option CallError × Calculator
  | [] => ([], none, calculator)
  | expression :: others =>
      match calculator.calculate (clocks 0) expression timeout flags with
      | (.error e, calculator) => ([], some e, calculator)
      | (.ok result, calculator) =>
          let (results, error, calculator) :=
            callAll (fun n => clocks (n + 1)) timeout flags calculator others
          (result :: results, error, calculator)

/-- The lines of some results. -/
def resultLines (results : List CallResult) : String :=
  String.join (results.map fun r => line r.toJson.pretty)

/-- Carries out the setting commands, or gives the first that is not understood. -/
def applySettings (calculator : Calculator) : List String → Except String Calculator
  | [] => .ok calculator
  | command :: others =>
      match calculator.setOption command with
      | (true, calculator) => applySettings calculator others
      | (false, _) => .error command

/-- Evaluates one expression. -/
def runEval (clocks : Nat → Clock) (timeout : Int) (calculator : Calculator) (expression : String)
    (flags : CallFlags) : Transcript :=
  let (results, error, _) := callAll clocks timeout flags calculator [expression]
  match error with
  | none => { output := resultLines results }
  | some e => { failure e.message with output := resultLines results }

/-- Applies a table of rates and evaluates expressions under them. A call that fails counts for more
than a batch that was not applied whole. -/
def runRates (clocks : Nat → Clock) (timeout : Int) (calculator : Calculator) (rows : List RateRow)
    (base : String) (warn : Bool) (expressions : List String) : Transcript :=
  let (report, calculator) := calculator.updateRates (clocks 0) rows base warn
  let (results, error, _) := callAll (fun n => clocks (n + 1)) timeout {} calculator expressions
  let output := line report.toJson.pretty ++ resultLines results
  match error with
  | some e => { failure e.message with output }
  | none => { exitCode := if report.isSuccess then 0 else 2, output }

/-- The table of rates written in a file, if there is such a file and it holds one. -/
def readTable? (contents : Option String) : Option (List RateRow) := do
  RateRow.tableOfJson? (← Json.parse? (← contents))

/-- Runs a command on a calculator. `contents` is what the file holds that the command names. -/
def runCommand (clocks : Nat → Clock) (contents : Option String) (timeout : Int)
    (calculator : Calculator) : Command → Transcript
  | .eval expression flags => runEval clocks timeout calculator expression flags
  | .vars => printed (.array (calculator.listVariables.map CatalogEntry.toJson))
  | .rates file base warn expressions =>
      match readTable? contents with
      | some rows => runRates clocks timeout calculator rows base warn expressions
      | none => { exitCode := 1, errors := "Invalid rate table " ++ file }
  | .info =>
      { output := line (Calculator.info ++ " (version " ++ toString Calculator.version ++ ")") }

/-- Runs an invocation on a new calculator. The calls meet the given clocks one after another. -/
def Invocation.runTimed (clocks : Nat → Clock) (contents : Option String)
    (invocation : Invocation) : Transcript :=
  match applySettings .new invocation.settingCommands with
  | .error command => failure ("Unknown option: " ++ command)
  | .ok calculator => runCommand clocks contents invocation.timeout calculator invocation.command

/-- Runs an invocation on a new calculator, with the same clock for every call. -/
def Invocation.run (clock : Clock) (contents : Option String) (invocation : Invocation) :
    Transcript :=
  invocation.runTimed (fun _ => clock) contents

/-- The file that an invocation reads. -/
def Invocation.file? (invocation : Invocation) : Option String :=
  match invocation.command with
  | .rates file _ _ _ => some file
  | _ => none

/-- What is left by a command line that is not run. -/
def Refusal.transcript : Refusal → Transcript
  | .usage => { exitCode := 2, errors := "usage error" }
  | .help => { output := line "Usage: calcs [OPTIONS] <COMMAND>" }
  | .version => { output := line Calculator.release }

end Reckoner.CommandLine
