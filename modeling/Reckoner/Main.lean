import Reckoner.CommandLine

/-!
# The program

Reads the words of its command line, the environment and the file that a command names, and writes
what the run leaves. Its clock starts at the present and charges a fixed cost for each reading.
-/

namespace Reckoner.CommandLine

/-- The cost of one reading of the clock, in nanoseconds. -/
def readingCost : Int := 100

/-- The contents of a file that can be read. -/
def contentsOf? (file : String) : IO (Option String) := do
  try
    return some (← IO.FS.readFile file)
  catch _ =>
    return none

/-- Writes what a run leaves and gives its exit code. -/
def finish (transcript : Transcript) : IO UInt32 := do
  IO.print transcript.output
  IO.eprint transcript.errors
  return UInt32.ofNat transcript.exitCode

end Reckoner.CommandLine

open Reckoner CommandLine in
/-- Runs the words of the command line. -/
def main (words : List String) : IO UInt32 := do
  match parseArguments (← IO.getEnv "CALC_TIMEOUT") words with
  | .error refusal => finish refusal.transcript
  | .ok invocation =>
      let contents ← (invocation.file?.mapM contentsOf?)
      let clock := Clock.metered (← IO.monoNanosNow) readingCost
      finish (invocation.run clock contents.join)
