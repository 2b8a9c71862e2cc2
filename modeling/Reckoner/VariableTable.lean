/-!
# Variables

Named constants, and symbols without a value. A variable has several names, some of them
abbreviations, some with characters outside ASCII, and is shown under the one that suits.
-/

namespace Reckoner

/-- The place of a variable in the table of its engine. -/
structure VariableId where
  index : Nat
deriving DecidableEq, Inhabited

/-- A name of a variable. -/
structure VariableName where
  name : String
  isAbbreviation : Bool
  isUnicode : Bool
deriving DecidableEq, Inhabited

namespace VariableName

/-- Whether a name has a character outside ASCII. -/
def needsUnicode (name : String) : Bool :=
  name.toList.any fun c => 128 ≤ c.toNat

/-- A short name. -/
def abbreviation (name : String) : VariableName :=
  ⟨name, true, needsUnicode name⟩

/-- A name in full. -/
def long (name : String) : VariableName :=
  ⟨name, false, needsUnicode name⟩

end VariableName

/-- A constant, or a symbol without a value. -/
structure Variable where
  names : List VariableName
  title : String := ""
  value : Option Float := none
  isHidden : Bool := false
deriving Inhabited

namespace Variable

/-- A symbol that stands for itself. -/
def placeholder (name : String) : Variable :=
  { names := [.abbreviation name] }

/-- A constant has a value, a symbol has none. -/
def isKnown (v : Variable) : Bool :=
  v.value.isSome

/-- The first name of the wanted kind among those the caller can show, else the first of those,
else the first of all. A variable without names has the empty name. -/
def preferredName (v : Variable) (abbreviated unicode : Bool) : String :=
  let shown := v.names.filter fun n => unicode || !n.isUnicode
  ((shown.find? fun n => n.isAbbreviation == abbreviated)
    |>.or shown.head?
    |>.or v.names.head?
    |>.map VariableName.name).getD ""

end Variable

/-- All variables of an engine, in the order in which they were added. -/
structure VariableTable where
  entries : List Variable := []
deriving Inhabited

namespace VariableTable

/-- Adds a variable at the end. -/
def add (table : VariableTable) (v : Variable) : VariableTable :=
  ⟨table.entries ++ [v]⟩

/-- The variable at a place. -/
def get? (table : VariableTable) (v : VariableId) : Option Variable :=
  table.entries[v.index]?

/-- The variable of that name; of several the last one added. -/
def find? (table : VariableTable) (name : String) : Option Variable :=
  table.entries.reverse.find? fun v => v.names.any fun n => n.name == name

/-- The places of all variables, in order. -/
def ids (table : VariableTable) : List VariableId :=
  (List.range table.entries.length).map VariableId.mk

end VariableTable

end Reckoner
