import Reckoner.Catalog
import Reckoner.StandardEngine.Definitions
import Mathlib.Data.List.Forall2

/-!
# The entries of the catalog

An engine gives its variables out by their places, and their names by numbers that count from one.
The catalog is put together from these alone. This file proves that it lists just the constants that
are shown, in order, and that each entry has all names of its constant and is headed by a short one
wherever there is one.
-/

namespace Reckoner

/-- A variable is headed by its first short name, else by its first name, and without names by the
empty one. -/
inductive Variable.HeadedBy (v : Variable) : String → Prop where
  | nameless (hnames : v.names = []) : HeadedBy v ""
  | short {front back : List VariableName} {n : VariableName}
      (hnames : v.names = front ++ n :: back)
      (hshort : n.isAbbreviation = true) (hfront : ∀ m ∈ front, m.isAbbreviation = false) :
      HeadedBy v n.name
  | long {n : VariableName} {others : List VariableName} (hnames : v.names = n :: others)
      (hlong : ∀ m ∈ v.names, m.isAbbreviation = false) : HeadedBy v n.name

/-- The short name that an engine prefers where all characters may be shown. -/
theorem Variable.headedBy_preferredName (v : Variable) :
    v.HeadedBy (v.preferredName true true) := by
  have hshown : (v.names.filter fun n => true || !n.isUnicode) = v.names := by simp
  rw [preferredName, hshown]
  cases hfirst : v.names.find? fun n => n.isAbbreviation == true with
  | some n =>
    obtain ⟨hn, front, back, hnames, hfront⟩ := List.find?_eq_some_iff_append.mp hfirst
    exact .short hnames (by simpa using hn) fun m hm => by simpa using hfront m hm
  | none =>
    have hlong : ∀ m ∈ v.names, m.isAbbreviation = false := by
      simpa using List.find?_eq_none.mp hfirst
    cases hnames : v.names with
    | nil => exact .nameless hnames
    | cons n others => exact .long hnames hlong

namespace Variable.HeadedBy

variable {v : Variable} {name : String}

/-- Only the empty name heads a variable without names. -/
theorem eq_empty (hname : v.HeadedBy name) (hnames : v.names = []) : name = "" := by
  cases hname with
  | nameless => rfl
  | short hall => simp [hall] at hnames
  | long hall => simp [hall] at hnames

/-- Where there are names, one of them heads the variable. -/
theorem mem (hname : v.HeadedBy name) (hnames : v.names ≠ []) :
    name ∈ v.names.map VariableName.name := by
  cases hname with
  | nameless hnone => exact absurd hnone hnames
  | short hall => simp [hall]
  | long hall => simp [hall]

end Variable.HeadedBy

/-- What the entry of a variable says. -/
structure CatalogEntry.Describes (entry : CatalogEntry) (v : Variable) : Prop where
  name : v.HeadedBy entry.name
  description : entry.description = v.title
  aliases : entry.aliases = if v.names = [] then [""] else v.names.map VariableName.name

/-- An entry is headed by one of the names in it, so it is never without names. -/
theorem CatalogEntry.Describes.name_mem {entry : CatalogEntry} {v : Variable}
    (hentry : entry.Describes v) : entry.name ∈ entry.aliases := by
  rw [hentry.aliases]
  split
  · next hnames => rw [hentry.name.eq_empty hnames, List.mem_singleton]
  · next hnames => exact hentry.name.mem hnames

/-- The places of all variables lead to the variables in order. -/
theorem VariableTable.forall₂_ids (table : VariableTable) :
    List.Forall₂ (fun id v => table.get? id = some v) table.ids table.entries := by
  refine List.forall₂_iff_get.mpr ⟨by simp [ids], fun i hi _ => ?_⟩
  simp [ids, get?]

namespace StandardEngine

variable {engine : StandardEngine} {id : VariableId} {v : Variable}

/-- The names counted from one are the names in order. -/
theorem catalogAliases_eq (hv : engine.constants.get? id = some v) (name : String) :
    catalogAliases engine id name =
      if v.names = [] then [name] else v.names.map VariableName.name := by
  have hcount : Engine.aliasCount engine id = v.names.length := by
    simp [Engine.aliasCount, hv]
  have hname (i : Nat) :
      Engine.aliasName engine id (i + 1) = v.names[i]?.map VariableName.name := by
    simp [Engine.aliasName, hv]
  rw [catalogAliases, hcount]
  split
  · next hnone => rw [if_pos (List.length_eq_zero_iff.mp hnone)]
  · next hsome =>
    rw [if_neg (fun hnames => hsome (List.length_eq_zero_iff.mpr hnames))]
    refine List.ext_getElem (by simp) fun i hi _ => ?_
    have hlt : i < v.names.length := by simpa using hi
    rw [List.getElem_map, List.getElem_range', List.getElem_map, Nat.one_mul, Nat.add_comm, hname,
      List.getElem?_eq_getElem hlt]
    rfl

/-- The entry of a variable describes it. -/
theorem describes_catalogEntry (hv : engine.constants.get? id = some v) :
    (catalogEntry engine id).Describes v := by
  have hpreferred : Engine.preferredName engine id true true = v.preferredName true true := by
    simp [Engine.preferredName, hv]
  have hheaded := v.headedBy_preferredName
  refine ⟨?_, by simp [catalogEntry, Engine.description, hv], ?_⟩
  · show v.HeadedBy (Engine.preferredName engine id true true)
    rwa [hpreferred]
  · show catalogAliases engine id (Engine.preferredName engine id true true) = _
    rw [catalogAliases_eq hv, hpreferred]
    split
    · next hnames => rw [hheaded.eq_empty hnames]
    · rfl

/-- Whatever variables an engine has, the catalog has one entry for each that is known and not
hidden, in the order in which they were added, and no others. An entry has all names of its variable
in order, or the empty name alone where there is none; it is headed by one of them, and by a long
one only if there is no short one. -/
theorem listVariables_describe (engine : StandardEngine) :
    List.Forall₂ CatalogEntry.Describes (listVariables engine)
        (engine.constants.entries.filter fun v => v.isKnown && !v.isHidden) ∧
      ∀ entry ∈ listVariables engine, entry.aliases ≠ [] ∧ entry.name ∈ entry.aliases := by
  have hlisted (id : VariableId) (v : Variable) (hv : engine.constants.get? id = some v) :
      (Engine.isKnown engine id && !Engine.isHidden engine id) = true ↔
        (v.isKnown && !v.isHidden) = true := by
    simp [Engine.isKnown, Engine.isHidden, hv]
  have hentries : List.Forall₂ CatalogEntry.Describes (listVariables engine)
      (engine.constants.entries.filter fun v => v.isKnown && !v.isHidden) := by
    refine List.forall₂_map_left_iff.mpr ?_
    refine (List.rel_filter hlisted engine.constants.forall₂_ids).imp fun id v hv => ?_
    exact describes_catalogEntry hv
  have hnamed : ∀ entry ∈ listVariables engine, entry.name ∈ entry.aliases :=
    ((List.forall₂_and_left _ _).mp
      (hentries.imp fun entry v hentry => ⟨hentry.name_mem, hentry⟩)).1
  exact ⟨hentries, fun entry hentry =>
    ⟨List.ne_nil_of_mem (hnamed entry hentry), hnamed entry hentry⟩⟩

/-- A constant without names, one with both kinds, a hidden one and a symbol. -/
theorem listVariables_describe_both :
    let engine : StandardEngine := {
      constants := ⟨[constant [] "Nameless" 1.5, .placeholder "x",
        { constant [.long "secret"] "" 2.5 with isHidden := true },
        constant [.long "golden", .abbreviation "φ", .abbreviation "phi"] "Golden Ratio" 1.618]⟩ }
    let entry : CatalogEntry := ⟨"φ", "Golden Ratio", ["golden", "φ", "phi"]⟩
    listVariables engine = [⟨"", "Nameless", [""]⟩, entry] ∧ entry ∈ listVariables engine ∧
      entry.aliases ≠ [] ∧ entry.name ∈ entry.aliases := by
  intro engine entry
  have hlisted : listVariables engine = [⟨"", "Nameless", [""]⟩, entry] := by decide +kernel
  have hentry : entry ∈ listVariables engine := by simp [hlisted]
  exact ⟨hlisted, hentry, (listVariables_describe engine).2 entry hentry⟩

end StandardEngine

end Reckoner
