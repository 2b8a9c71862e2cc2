import Reckoner.Catalog
import Reckoner.Json

/-!
# The catalog as JSON
-/

namespace Reckoner

namespace CatalogEntry

/-- An entry with its names. -/
def toJson (entry : CatalogEntry) : Json :=
  .object [("name", .string entry.name), ("description", .string entry.description),
    ("aliases", .strings entry.aliases)]

/-- Reads an entry; all fields are needed. -/
def ofJson? (json : Json) : Option CatalogEntry := do
  match ← json.record? [["name"], ["description"], ["aliases"]] with
  | [some name, some description, some aliases] =>
      return ⟨← name.string?, ← description.string?, ← aliases.list? Json.string?⟩
  | _ => none

end CatalogEntry

end Reckoner
