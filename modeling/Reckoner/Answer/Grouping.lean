import Reckoner.Settings

/-!
# Grouping digits

Digits before the point are set in groups of three, counted from the point; the sign and the
digits after the point are left alone.
-/

namespace Reckoner.Answer

/-- What parts the groups: a thin space, or a plain one without Unicode signs. -/
def groupSeparator (unicode : Bool) : Char :=
  if unicode then '\u2009' else ' '

/-- Parts a run of digits into groups of three from the right. A separator stands before
every digit that has a positive multiple of three digits from itself to the end. -/
def groupedRun (separator : Char) : List Char → List Char
  | [] => []
  | [last] => [last]
  | digit :: rest =>
      if rest.length % 3 = 0 then digit :: separator :: groupedRun separator rest
      else digit :: groupedRun separator rest

/-- Parts the digits before the point, if there is one. -/
def groupedNumeral (separator : Char) (text : List Char) : List Char :=
  groupedRun separator (text.takeWhile (· != '.')) ++ text.dropWhile (· != '.')

/-- Groups the digits of a number text as the settings ask. -/
def grouped (print : PrintSettings) (text : List Char) : List Char :=
  match print.digitGrouping with
  | .ungrouped => text
  | .thousands =>
      let separator := groupSeparator print.useUnicodeSigns
      match text with
      | '-' :: rest => '-' :: groupedNumeral separator rest
      | _ => groupedNumeral separator text

end Reckoner.Answer
