import Reckoner.Decimal.Literal
import Reckoner.Session

/-!
# Arguments of the command line

The words of a command line become an `Invocation`, or a reason not to run. Some options may
stand before the command or after it; what stands after it counts. An option takes its value after
an equals sign or from the next word, which must not begin with a minus sign; two minus signs alone
end the options. Words are taken in order, and the first that has no place decides. A value from a
word of its own is looked at when the next option or word of its level begins, or else once the
command has been read, so that a call for help in between comes first.
-/

namespace Reckoner.CommandLine

/-- What is to be done. -/
inductive Command where
  | eval (expression : String) (flags : CallFlags)
  | vars
  | rates (file base : String) (warn : Bool) (expressions : List String)
  | info
deriving DecidableEq

/-- A command with the options that all commands share. -/
structure Invocation where
  /-- The budget of each evaluation, in milliseconds. -/
  timeout : Int
  /-- Setting commands that come before everything else. -/
  settingCommands : List String
  command : Command
deriving DecidableEq

/-- Why nothing is run. -/
inductive Refusal where
  | usage
  | help
  | version
deriving DecidableEq

/-! ## Values -/

/-- An integer with an optional sign, within 64 bits. -/
def readInt64? (text : String) : Option Int :=
  let (isNegative, digits) :=
    match text.toList with
    | '-' :: digits => (true, digits)
    | '+' :: digits => (false, digits)
    | digits => (false, digits)
  if digits.isEmpty || !digits.all Char.isDigit then none
  else
    let magnitude : Int := Decimal.ofDigits digits
    let value := if isNegative then -magnitude else magnitude
    if -(Nat.pow 2 63 : Int) ≤ value ∧ value < Nat.pow 2 63 then some value else none

/-- A natural number within 32 bits. -/
def readWord? (text : String) : Option UInt32 := do
  let value ← readInt64? text
  if 0 ≤ value ∧ value < Nat.pow 2 32 then some (UInt32.ofNat value.toNat) else none

/-! ## Words -/

/-- An option with a value. -/
structure OptionSpec where
  name : String
  isRepeatable : Bool
  /-- Whether a text can be its value. -/
  accepts : String → Bool

/-- What may stand on one level: before the command, or after it. -/
structure LevelSpec where
  options : List OptionSpec
  /-- The options without a value. -/
  switches : List String := []
  hasVersion : Bool := false
  /-- How many words that are no options may follow; without a bound, any number. -/
  maxWords : Option Nat := some 0
  /-- Whether a text can be the word at a place, counted from zero. -/
  acceptsWord : Nat → String → Bool := fun _ _ => true
  /-- The words that begin another level. -/
  commands : List String := []

/-- What was found of one level, in order. -/
structure Reading where
  values : List (String × String) := []
  switches : List String := []
  words : List String := []
  /-- an option with a value that has not been looked at yet -/
  pending : Option (OptionSpec × String) := none

namespace Reading

/-- The values of an option, in order. -/
def valuesOf (r : Reading) (name : String) : List String :=
  (r.values.filter fun (option, _) => option == name).map fun (_, value) => value

/-- Adds the value of an option, if it can have that value and may still have one. -/
def addValue (r : Reading) (option : OptionSpec) (value : String) : Except Refusal Reading :=
  if option.accepts value && (option.isRepeatable || (r.valuesOf option.name).isEmpty) then
    .ok { r with values := r.values ++ [(option.name, value)] }
  else .error .usage

/-- Looks at the value that is still pending, if there is one, and adds it. -/
def settled (r : Reading) : Except Refusal Reading :=
  match r.pending with
  | none => .ok r
  | some (option, value) => { r with pending := none }.addValue option value

/-- Adds a switch, which may be given once. -/
def addSwitch (r : Reading) (name : String) : Except Refusal Reading :=
  if r.switches.contains name then .error .usage
  else .ok { r with switches := r.switches ++ [name] }

/-- Adds words that are no options, if so many may follow and each can stand in its place. -/
def addWords (r : Reading) (level : LevelSpec) (words : List String) : Except Refusal Reading :=
  let all := r.words ++ words
  if level.maxWords.all (all.length ≤ ·) &&
      all.zipIdx.all fun (word, place) => level.acceptsWord place word then
    .ok { r with words := all }
  else .error .usage

end Reading

/-- What a word is by its beginning. -/
inductive WordShape where
  /-- two minus signs alone -/
  | ending
  /-- two minus signs before a name, with what follows an equals sign -/
  | long (name : String) (value : Option String)
  /-- one minus sign before letters, of which the first counts -/
  | short (letter : Char)
  | plain

/-- The shape of a word. A minus sign alone is a plain word. -/
def shapeOf (word : String) : WordShape :=
  match word.toList with
  | ['-', '-'] => .ending
  | '-' :: '-' :: rest =>
      match rest.dropWhile (· != '=') with
      | [] => .long (String.ofList rest) none
      | _ :: value => .long (String.ofList (rest.takeWhile (· != '='))) (some (String.ofList value))
  | '-' :: letter :: _ => .short letter
  | _ => .plain

/-- Whether a word can be the value of the option before it. -/
def isValueWord (word : String) : Bool :=
  match shapeOf word with
  | .plain => true
  | _ => false

/-- Reads a name after two minus signs that is no option with a value. -/
def readSwitch (level : LevelSpec) (found : Reading) (name : String) (value : Option String) :
    Except Refusal Reading :=
  if value.isSome then .error .usage
  else if name = "help" then .error .help
  else if level.hasVersion && name = "version" then .error .version
  else if level.switches.contains name then found.addSwitch name
  else .error .usage

/-- Reads the words of one level up to the command that begins the next, which is given with the
words after it. The last value may be left pending. -/
def readLevel (level : LevelSpec) (found : Reading) :
    List String → Except Refusal (Reading × Option (String × List String))
  | [] => .ok (found, none)
  | word :: rest =>
      if level.commands.contains word then .ok (found, some (word, rest))
      else do
        let found ← found.settled
        match shapeOf word with
        | .ending => return (← found.addWords level rest, none)
        | .plain => readLevel level (← found.addWords level [word]) rest
        | .short letter =>
            if letter = 'h' then .error .help
            else if level.hasVersion && letter = 'V' then .error .version
            else .error .usage
        | .long name value =>
            match level.options.find? fun option => option.name == name with
            | none => readLevel level (← readSwitch level found name value) rest
            | some option =>
                match value, rest with
                | some value, rest => readLevel level (← found.addValue option value) rest
                | none, value :: rest =>
                    if isValueWord value then
                      readLevel level { found with pending := some (option, value) } rest
                    else .error .usage
                | none, [] => .error .usage

/-! ## The commands -/

/-- The options that all commands share. -/
def sharedOptions : List OptionSpec :=
  [⟨"timeout", false, fun text => (readInt64? text).isSome⟩, ⟨"set", true, fun _ => true⟩]

/-- The names of the commands that run. -/
def commandNames : List String := ["eval", "vars", "rates", "info"]

/-- What stands before the command. -/
def rootLevel : LevelSpec where
  options := sharedOptions
  hasVersion := true
  commands := "help" :: commandNames

/-- What stands after a command. The first word after `rates` names a file, so it is not empty. -/
def commandLevel (name : String) : LevelSpec :=
  if name = "eval" then
    { options := ⟨"flags", false, fun text => (readWord? text).isSome⟩ :: sharedOptions
      maxWords := some 1 }
  else if name = "rates" then
    { options := ⟨"base", false, fun _ => true⟩ :: sharedOptions
      switches := ["warn"]
      maxWords := none
      acceptsWord := fun place word => place != 0 || !word.isEmpty }
  else { options := sharedOptions }

/-- The command of that name with what was found after it. -/
def commandOf (name : String) (found : Reading) : Except Refusal Command :=
  match name, found.words with
  | "eval", [expression] =>
      .ok (.eval expression ⟨((found.valuesOf "flags").head?.bind readWord?).getD 0⟩)
  | "vars", [] => .ok .vars
  | "info", [] => .ok .info
  | "rates", file :: expressions =>
      .ok (.rates file ((found.valuesOf "base").headD "EUR") (found.switches.contains "warn")
        expressions)
  | _, _ => .error .usage

/-- Whether a level leaves the shared timeout to the environment and cannot take it from there. -/
def hasBadEnvironment (environment : Option String) (found : Reading) : Bool :=
  (found.valuesOf "timeout").isEmpty && environment.any fun text => (readInt64? text).isNone

/-- The budget: from the words after the command, else from those before it, else from the
environment, else the default. -/
def timeoutOf (environment : Option String) (before after : Reading) : Int :=
  (((after.valuesOf "timeout").head?.or (before.valuesOf "timeout").head?).or environment
    |>.bind readInt64?).getD defaultTimeout

/-- The setting commands: those after the command, or else those before it. -/
def settingCommandsOf (before after : Reading) : List String :=
  if (after.valuesOf "set").isEmpty then before.valuesOf "set" else after.valuesOf "set"

/-- Whether the words after `help` name a command. -/
def isHelpTopic (words : List String) : Bool :=
  match words with
  | [] => true
  | [name] => rootLevel.commands.contains name
  | _ => false

/-- Reads the words of a command line; `environment` is the budget that the environment gives. -/
def parseArguments (environment : Option String) (words : List String) :
    Except Refusal Invocation := do
  match ← readLevel rootLevel {} words with
  | (_, none) => .error .usage
  | (before, some (name, rest)) =>
      if name = "help" then .error (if isHelpTopic rest then .help else .usage)
      else
        let (after, _) ← readLevel (commandLevel name) {} rest
        let after ← after.settled
        let command ← commandOf name after
        let before ← before.settled
        if hasBadEnvironment environment before || hasBadEnvironment environment after then
          .error .usage
        else
          return {
            timeout := timeoutOf environment before after
            settingCommands := settingCommandsOf before after
            command }

end Reckoner.CommandLine
