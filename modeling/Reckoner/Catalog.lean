import Reckoner.Session

/-!
# The catalog of variables

The constants that an engine knows and shows, each with the names it goes by.
-/

namespace Reckoner

/-- A constant in the catalog. -/
structure CatalogEntry where
  /-- The short name, with any characters. -/
  name : String
  description : String
  /-- All names; never empty. -/
  aliases : List String
deriving DecidableEq, Inhabited

variable {σ : Type} [Engine σ]

/-- The names of a variable, counted from one. One without names is listed under the name it is
shown by. -/
def catalogAliases (engine : σ) (v : VariableId) (name : String) : List String :=
  match Engine.aliasCount engine v with
  | 0 => [name]
  | count => (List.range' 1 count).map fun i => (Engine.aliasName engine v i).getD ""

/-- The entry of a variable. -/
def catalogEntry (engine : σ) (v : VariableId) : CatalogEntry :=
  let name := Engine.preferredName engine v true true
  { name, description := Engine.description engine v, aliases := catalogAliases engine v name }

/-- The variables that are known and not hidden, in the order in which they were added. -/
def listVariables (engine : σ) : List CatalogEntry :=
  ((Engine.variableIds engine).filter fun v =>
    Engine.isKnown engine v && !Engine.isHidden engine v).map (catalogEntry engine)

/-- The catalog of the engine of a session. -/
def Session.listVariables (session : Session σ) : List CatalogEntry :=
  Reckoner.listVariables session.engine

end Reckoner
