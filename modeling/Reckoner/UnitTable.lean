import Reckoner.Decimal.Plain

/-!
# Units

A unit is a root of its dimension, or so many of another unit. The table keeps units in the
order in which they were added, and a unit is known by its place in that order.
-/

namespace Reckoner

/-- The place of a unit in the table of its engine. -/
structure UnitId where
  index : Nat
deriving DecidableEq, Inhabited

/-- A unit with its names and its conversion. -/
structure UnitEntry where
  /-- The identifier first, then other names it goes by. -/
  names : List String
  category : String := ""
  title : String := ""
  singular : String := ""
  plural : String := ""
  /-- The unit it is a multiple of; a root has none. -/
  base : Option UnitId := none
  /-- The multiple as an expression. -/
  expression : String := "1"
  /-- The value of the expression, undefined while there is none. -/
  factor : Float := 1.0
  isCurrency : Bool := false
  /-- Whether amounts in the unit are approximate. -/
  approximate : Bool := false
  /-- The power of ten to which amounts are known. -/
  precision : Option Int := none
  /-- Whether the expression changed since it was last confirmed. -/
  changed : Bool := false
deriving Inhabited

/-- What is given of a unit that is to be added as a multiple of another. -/
structure AliasSpec where
  category : String := "Currency"
  name : String
  plural : String := ""
  singular : String := ""
  title : String := ""
  base : UnitId
  expression : String := "1"
  isCurrency : Bool := true
deriving DecidableEq, Inhabited

/-- The undefined value. -/
def undefinedValue : Float := 0.0 / 0.0

namespace UnitEntry

/-- The root of a dimension. -/
def root (names : List String) (category title : String) (isCurrency : Bool) : UnitEntry :=
  { names, category, title, isCurrency }

/-- A fixed multiple of another unit. -/
def multiple (names : List String) (title : String) (base : UnitId) (factor : Float) :
    UnitEntry :=
  { names, title, base := some base, expression := Decimal.plainText factor, factor }

/-- A unit as it is when it has just been added: without a factor until the expressions are
next evaluated. -/
def ofSpec (spec : AliasSpec) : UnitEntry where
  names := [spec.name]
  category := spec.category
  title := spec.title
  singular := spec.singular
  plural := spec.plural
  base := some spec.base
  expression := spec.expression
  factor := undefinedValue
  isCurrency := spec.isCurrency
  changed := true

/-- The name shown after an amount. -/
def displayName (unit : UnitEntry) : String :=
  unit.names.headD ""

end UnitEntry

/-- A change to the conversion of a currency. -/
inductive CurrencyEdit where
  | base (unit : UnitId)
  | expression (text : String)
  | approximate (mark : Bool)
  | precision (exponent : Int)
  | changed (mark : Bool)
deriving DecidableEq

namespace CurrencyEdit

/-- Carries out a change. A unit counts as changed when its expression becomes another text. -/
def apply (unit : UnitEntry) : CurrencyEdit → UnitEntry
  | .base target => { unit with base := some target }
  | .expression text =>
      if unit.expression = text then unit
      else { unit with expression := text, changed := true }
  | .approximate mark => { unit with approximate := mark }
  | .precision exponent => { unit with precision := some exponent }
  | .changed mark => { unit with changed := mark }

end CurrencyEdit

/-- All units of an engine, in the order in which they were added. -/
structure UnitTable where
  units : List UnitEntry := []
deriving Inhabited

/-- The place of the last element that passes a test. -/
def lastIndex? {α : Type} (test : α → Bool) : List α → Option Nat
  | [] => none
  | first :: rest =>
      match lastIndex? test rest with
      | some i => some (i + 1)
      | none => if test first then some 0 else none

namespace UnitTable

/-- The unit at a place. -/
def get? (table : UnitTable) (unit : UnitId) : Option UnitEntry :=
  table.units[unit.index]?

/-- Adds a unit at the end and gives its place. -/
def add (table : UnitTable) (unit : UnitEntry) : UnitId × UnitTable :=
  (⟨table.units.length⟩, ⟨table.units ++ [unit]⟩)

/-- Changes the unit at a place, if there is one. -/
def modify (table : UnitTable) (unit : UnitId) (change : UnitEntry → UnitEntry) : UnitTable :=
  ⟨table.units.modify unit.index change⟩

/-- The unit of that name. A unit added later hides an earlier one of the same name. -/
def find? (table : UnitTable) (name : String) : Option UnitId :=
  (lastIndex? (fun unit => unit.names.contains name) table.units).map UnitId.mk

/-- All units with their places. -/
def entries (table : UnitTable) : List (UnitId × UnitEntry) :=
  table.units.zipIdx.map fun (unit, i) => (⟨i⟩, unit)

/-- The units that a conversion passes at the most, the root among them. -/
def maxChain : Nat := 16

/-- Follows the bases from a unit to its root, multiplying the factors on the way; at most
the given count of units is visited. -/
def rootFrom (table : UnitTable) : Nat → UnitId → Float → Option (UnitId × Float)
  | 0, _, _ => none
  | visits + 1, unit, factor =>
      match table.get? unit with
      | none => none
      | some entry =>
          match entry.base with
          | none => some (unit, factor)
          | some base =>
              if entry.factor.isFinite then table.rootFrom visits base (factor * entry.factor)
              else none

/-- The root of a unit and how many of the root make one of the unit. There is none when a
factor on the way is not finite, when a base is missing, or when the bases do not end. -/
def toRoot? (table : UnitTable) (unit : UnitId) : Option (UnitId × Float) :=
  table.rootFrom maxChain unit 1.0

/-- Sets the factor of a unit. -/
def setFactor (table : UnitTable) (unit : UnitId) (factor : Float) : UnitTable :=
  table.modify unit fun entry => { entry with factor }

end UnitTable

end Reckoner
