import Reckoner.StandardEngine

/-!
# Definitions of the standard engine

The constants, symbols, functions and units that an engine has once its definitions are loaded.
-/

namespace Reckoner.StandardEngine

/-- A constant. -/
def constant (names : List VariableName) (title : String) (value : Float) : Variable :=
  { names, title, value := some value }

/-- The constants and symbols, in order. -/
def standardVariables : List Variable :=
  [constant [.abbreviation "π", .abbreviation "pi"] "Archimedes' Constant (pi)" circleRatio,
    constant [.abbreviation "e"] "Euler's Number" 2.718281828459045,
    constant [.abbreviation "φ", .long "golden", .long "golden_ratio"] "Golden Ratio"
      1.618033988749895,
    constant [.abbreviation "τ", .abbreviation "tau"] "Circle Constant (tau)" 6.283185307179586,
    { constant [.long "catalan"] "Catalan's Constant" 0.915965594177219 with isHidden := true },
    .placeholder "x", .placeholder "y", .placeholder "z"]

/-- Adds the standard units to a table, and gives the place of the anchor currency. The kilometre
is a multiple of the metre. -/
def addStandardUnits (table : UnitTable) : UnitId × UnitTable :=
  let (metre, table) := table.add (.root ["m", "meter", "meters"] "Length" "Meter" false)
  let (_, table) := table.add (.multiple ["km", "kilometer"] "Kilometer" metre 1000.0)
  let (_, table) := table.add (.root ["s", "second", "seconds"] "Time" "Second" false)
  let (_, table) := table.add (.root ["g", "gram", "grams"] "Mass" "Gram" false)
  table.add (.root ["EUR", "euro", "€"] "Currency" "Euro" true)

/-- Adds the standard definitions to an engine, once. -/
def load (engine : StandardEngine) : StandardEngine :=
  if engine.isLoaded then engine
  else
    let (anchor, units) := addStandardUnits engine.units
    { engine with
      functions := .builtin
      constants := standardVariables.foldl VariableTable.add engine.constants
      units := units
      anchor := some anchor
      isLoaded := true }

/-- An engine with its definitions loaded. -/
def withDefinitions : StandardEngine :=
  ({} : StandardEngine).load

end Reckoner.StandardEngine
