import Reckoner.Catalog
import Reckoner.Rates
import Reckoner.StandardEngine.Definitions

/-!
# The calculator

A session with the standard engine and its definitions, ready to be used.
-/

namespace Reckoner

/-- A session with the standard engine. -/
abbrev Calculator := Session StandardEngine

namespace Calculator

/-- A calculator with the standard definitions. -/
def new : Calculator :=
  { engine := .withDefinitions }

/-- Evaluates an expression with the default budget and no flags. -/
def calculateDefault (calculator : Calculator) (clock : Clock) (expression : String) :
    Except CallError CallResult × Calculator :=
  calculator.calculate clock expression defaultTimeout {}

/-- The name and the release of the program. -/
def release : String := "calc-session 0.1.0"

/-- What the calculator says of itself. -/
def info : String := release ++ " with the bundled basic engine"

/-- The version of what it offers. -/
def version : Nat := 1

end Calculator

end Reckoner
