import Reckoner.Json
import Reckoner.Settings.Flags

/-!
# Settings as JSON

Every choice has a name of its own. Reading asks for all fields.
-/

namespace Reckoner

namespace AngleUnit

/-- The name of an angle unit. -/
def name : AngleUnit → String
  | .unspecified => "none"
  | .radians => "radians"
  | .degrees => "degrees"
  | .gradians => "gradians"

/-- The angle unit of that name. -/
def ofName? : String → Option AngleUnit
  | "none" => some .unspecified
  | "radians" => some .radians
  | "degrees" => some .degrees
  | "gradians" => some .gradians
  | _ => none

end AngleUnit

namespace BaseDisplay

/-- The name of a way to show the base. -/
def name : BaseDisplay → String
  | .bare => "none"
  | .marked => "normal"

/-- The way to show the base that has that name. -/
def ofName? : String → Option BaseDisplay
  | "none" => some .bare
  | "normal" => some .marked
  | _ => none

end BaseDisplay

namespace DigitGrouping

/-- The name of a way to group digits. -/
def name : DigitGrouping → String
  | .ungrouped => "none"
  | .thousands => "standard"

/-- The way to group digits that has that name. -/
def ofName? : String → Option DigitGrouping
  | "none" => some .ungrouped
  | "standard" => some .thousands
  | _ => none

end DigitGrouping

namespace ExponentDisplay

/-- The name of a way to write powers of ten. -/
def name : ExponentDisplay → String
  | .lowercase => "lowercase_e"
  | .uppercase => "uppercase_e"
  | .powerOfTen => "power_of10"

/-- The way to write powers of ten that has that name. -/
def ofName? : String → Option ExponentDisplay
  | "lowercase_e" => some .lowercase
  | "uppercase_e" => some .uppercase
  | "power_of10" => some .powerOfTen
  | _ => none

end ExponentDisplay

namespace IntervalDisplay

/-- The name of a way to show uncertainty. -/
def name : IntervalDisplay → String
  | .significantDigits => "significant_digits"
  | .interval => "interval"
  | .plusMinus => "plus_minus"

/-- The way to show uncertainty that has that name. -/
def ofName? : String → Option IntervalDisplay
  | "significant_digits" => some .significantDigits
  | "interval" => some .interval
  | "plus_minus" => some .plusMinus
  | _ => none

end IntervalDisplay

namespace ParseSettings

/-- How expressions are read, with a field for each setting. -/
def toJson (s : ParseSettings) : Json :=
  .object [("angle_unit", .string s.angleUnit.name), ("unknowns_enabled", .bool s.unknownsEnabled),
    ("decimal_comma", .bool s.decimalComma)]

/-- Reads how expressions are read. -/
def ofJson? (json : Json) : Option ParseSettings := do
  match ← json.record? [["angle_unit"], ["unknowns_enabled"], ["decimal_comma"]] with
  | [some angleUnit, some unknownsEnabled, some decimalComma] =>
      return {
        angleUnit := ← AngleUnit.ofName? (← angleUnit.case?)
        unknownsEnabled := ← unknownsEnabled.bool?
        decimalComma := ← decimalComma.bool? }
  | _ => none

end ParseSettings

namespace PrintSettings

/-- How answers are written, with a field for each setting. -/
def toJson (s : PrintSettings) : Json :=
  .object [("base", .nat s.base), ("base_display", .string s.baseDisplay.name),
    ("digit_grouping", .string s.digitGrouping.name),
    ("exp_display", .string s.exponentDisplay.name),
    ("interval_display", .string s.intervalDisplay.name),
    ("use_unicode_signs", .bool s.useUnicodeSigns),
    ("indicate_infinite_series", .bool s.indicateInfiniteSeries)]

/-- Reads how answers are written. The base may be any number of 32 bits. -/
def ofJson? (json : Json) : Option PrintSettings := do
  match ← json.record? [["base"], ["base_display"], ["digit_grouping"], ["exp_display"],
    ["interval_display"], ["use_unicode_signs"], ["indicate_infinite_series"]] with
  | [some base, some baseDisplay, some digitGrouping, some exponentDisplay, some intervalDisplay,
      some useUnicodeSigns, some indicateInfiniteSeries] =>
      return {
        base := ← base.natBelow? (Nat.pow 2 32)
        baseDisplay := ← BaseDisplay.ofName? (← baseDisplay.case?)
        digitGrouping := ← DigitGrouping.ofName? (← digitGrouping.case?)
        exponentDisplay := ← ExponentDisplay.ofName? (← exponentDisplay.case?)
        intervalDisplay := ← IntervalDisplay.ofName? (← intervalDisplay.case?)
        useUnicodeSigns := ← useUnicodeSigns.bool?
        indicateInfiniteSeries := ← indicateInfiniteSeries.bool? }
  | _ => none

end PrintSettings

namespace Settings

/-- All settings, those for reading first. -/
def toJson (s : Settings) : Json :=
  .object [("parse", s.parse.toJson), ("print", s.print.toJson)]

/-- Reads all settings. -/
def ofJson? (json : Json) : Option Settings := do
  match ← json.record? [["parse"], ["print"]] with
  | [some parse, some print] =>
      return { parse := ← ParseSettings.ofJson? parse, print := ← PrintSettings.ofJson? print }
  | _ => none

end Settings

namespace CallFlags

/-- The word of flag bits as a number. -/
def toJson (flags : CallFlags) : Json :=
  .nat flags.bits.toNat

/-- Reads a word of flag bits, known or not. -/
def ofJson? (json : Json) : Option CallFlags := do
  return ⟨UInt32.ofNat (← json.natBelow? (Nat.pow 2 32))⟩

end CallFlags

end Reckoner
