import Reckoner.Settings
import Reckoner.Text.Blank

/-!
# Setting commands

A setting is changed by a text such as `angle degrees`: a name, which may have several words,
and a value after the last blank. `Assignment.read?` turns the text into the one
assignment it stands for, and `Assignment.apply` carries it out, so that what a command does
is known before any settings are.
-/

namespace Reckoner

/-- One setting with the value it is to have. -/
inductive Assignment where
  | angleUnit (unit : AngleUnit)
  | unknowns (enabled : Bool)
  | decimalComma (enabled : Bool)
  | unicodeSigns (enabled : Bool)
  | infiniteSeries (enabled : Bool)
  | digitGrouping (grouping : DigitGrouping)
  | base (radix : Nat)
  | baseDisplay (display : BaseDisplay)
  | exponentDisplay (display : ExponentDisplay)
  | intervalDisplay (display : IntervalDisplay)
deriving DecidableEq

namespace Assignment

/-- Writes the one setting that the assignment names. -/
def apply : Assignment → Settings → Settings
  | .angleUnit unit, s => { s with parse := { s.parse with angleUnit := unit } }
  | .unknowns enabled, s => { s with parse := { s.parse with unknownsEnabled := enabled } }
  | .decimalComma enabled, s => { s with parse := { s.parse with decimalComma := enabled } }
  | .unicodeSigns enabled, s => { s with print := { s.print with useUnicodeSigns := enabled } }
  | .infiniteSeries enabled, s =>
      { s with print := { s.print with indicateInfiniteSeries := enabled } }
  | .digitGrouping grouping, s => { s with print := { s.print with digitGrouping := grouping } }
  | .base radix, s => { s with print := { s.print with base := radix } }
  | .baseDisplay display, s => { s with print := { s.print with baseDisplay := display } }
  | .exponentDisplay display, s => { s with print := { s.print with exponentDisplay := display } }
  | .intervalDisplay display, s => { s with print := { s.print with intervalDisplay := display } }

/-- A value of a setting that is on or off. -/
def readSwitch? : String → Option Bool
  | "on" | "yes" | "true" | "1" => some true
  | "off" | "no" | "false" | "0" => some false
  | _ => none

/-- A value of `angle`. -/
def readAngleUnit? : String → Option AngleUnit
  | "0" | "none" => some .unspecified
  | "1" | "rad" | "radians" => some .radians
  | "2" | "deg" | "degrees" => some .degrees
  | "3" | "gra" | "gradians" => some .gradians
  | _ => none

/-- A value of `base`. -/
def readBase? : String → Option Nat
  | "2" | "bin" => some 2
  | "8" | "oct" => some 8
  | "10" | "dec" => some 10
  | "16" | "hex" => some 16
  | _ => none

/-- A value of `base display`. -/
def readBaseDisplay? : String → Option BaseDisplay
  | "none" | "off" => some .bare
  | "normal" | "on" => some .marked
  | _ => none

/-- A value of `exp mode`. -/
def readExponentDisplay? : String → Option ExponentDisplay
  | "lowercase" | "e" => some .lowercase
  | "uppercase" => some .uppercase
  | "none" | "power" => some .powerOfTen
  | _ => none

/-- A value of `interval display`. -/
def readIntervalDisplay? : String → Option IntervalDisplay
  | "significant" => some .significantDigits
  | "interval" => some .interval
  | "plusminus" => some .plusMinus
  | _ => none

/-- The assignment of a value to the setting of that name. -/
def ofNameAndValue? (name value : String) : Option Assignment :=
  match name with
  | "angle" => (readAngleUnit? value).map angleUnit
  | "unknowns" => (readSwitch? value).map unknowns
  | "decimal comma" => (readSwitch? value).map decimalComma
  | "unicode" => (readSwitch? value).map unicodeSigns
  | "infinite series" => (readSwitch? value).map infiniteSeries
  | "digits" | "digit grouping" =>
      (readSwitch? value).map fun on => digitGrouping (if on then .thousands else .ungrouped)
  | "base" => (readBase? value).map base
  | "base display" => (readBaseDisplay? value).map baseDisplay
  | "exp mode" => (readExponentDisplay? value).map exponentDisplay
  | "interval display" => (readIntervalDisplay? value).map intervalDisplay
  | _ => none

/-- Splits a text at its last blank, which belongs to neither part. -/
def splitAtLastBlank : List Char → Option (List Char × List Char)
  | [] => none
  | c :: rest =>
      match splitAtLastBlank rest with
      | some (front, back) => some (c :: front, back)
      | none => if Text.isBlank c then some ([], rest) else none

/-- A command without blanks at its ends and with the letters A to Z in lower case. -/
def normalizedCommand (command : String) : List Char :=
  (Text.trimmed command.toList).map Char.toLower

/-- The assignment that a command stands for, if it stands for one. -/
def read? (command : String) : Option Assignment := do
  let (name, value) ← splitAtLastBlank (normalizedCommand command)
  ofNameAndValue? (String.ofList (Text.trimmed name)) (String.ofList (Text.trimmed value))

end Assignment

end Reckoner
