import Reckoner.Json
import Mathlib.Data.List.Forall2
import Mathlib.Data.List.Nodup
import Mathlib.Data.List.Perm.Subperm

/-!
# Values up to the order of fields

Two texts of the interchange format stand for the same value when they differ in nothing but the
order of fields. A reader must not depend on that order: it reads back what was written when it
finds it in every value that is the same as the written one. Such a reader tells any two written
things apart.
-/

namespace Reckoner.Json

/-- Two values are the same up to the order of their fields. The fields of two objects match when
no name is repeated, both sides have the same names, and the values under each name are the same. -/
inductive SameValue : Json → Json → Prop
  | refl (json : Json) : SameValue json json
  | array {items others : List Json} (hitems : List.Forall₂ SameValue items others) :
      SameValue (.array items) (.array others)
  | object {fields others : List (String × Json)} (hnodup : (fields.map Prod.fst).Nodup)
      (hnames : (fields.map Prod.fst).Perm (others.map Prod.fst))
      (hvalues : ∀ name value other, (name, value) ∈ fields → (name, other) ∈ others →
        SameValue value other) :
      SameValue (.object fields) (.object others)

/-! ## Fields by their names -/

section fields

variable {fields : List (String × Json)} {name : String} {value other : Json}

theorem filter_name_of_notMem (hname : name ∉ fields.map Prod.fst) :
    fields.filter (fun (own, _) => [name].contains own) = [] := by
  refine List.filter_eq_nil_iff.mpr fun field hfield hown => hname ?_
  have hown : field.1 = name := by simpa using hown
  exact hown ▸ List.mem_map_of_mem hfield

/-- Without repeated names, the only field of a name is the first one. -/
theorem onlyField?_eq_lookup (hnodup : (fields.map Prod.fst).Nodup) (name : String) :
    onlyField? fields [name] = some (fields.lookup name) := by
  unfold onlyField?
  induction fields with
  | nil => rfl
  | cons field fields ih =>
    obtain ⟨own, value⟩ := field
    rw [List.map_cons, List.nodup_cons] at hnodup
    rcases eq_or_ne own name with rfl | hne
    · rw [List.filter_cons_of_pos (by simp), filter_name_of_notMem hnodup.1, List.lookup_cons_self]
    · rw [List.filter_cons_of_neg (by simpa using hne), ih hnodup.2, List.lookup_cons,
        beq_false_of_ne hne.symm]

/-- Without repeated names, a record is read by the names of its fields. -/
theorem record?_eq_lookup (hnodup : (fields.map Prod.fst).Nodup) (names : List String) :
    record? (names.map fun name => [name]) (.object fields) =
      some (names.map fun name => fields.lookup name) := by
  show (names.map fun name => [name]).mapM (onlyField? fields) = _
  induction names with
  | nil => rfl
  | cons name names ih =>
    rw [List.map_cons, List.mapM_cons, onlyField?_eq_lookup hnodup, ih]
    rfl

/-- Without repeated names, a field is what is found under its name. -/
theorem lookup_eq_some_iff_mem (hnodup : (fields.map Prod.fst).Nodup) :
    fields.lookup name = some value ↔ (name, value) ∈ fields := by
  constructor
  · intro hlookup
    obtain ⟨before, after, rfl, -⟩ := List.lookup_eq_some_iff.mp hlookup
    simp
  · intro hmem
    obtain ⟨before, after, rfl⟩ := List.append_of_mem hmem
    refine List.lookup_eq_some_iff.mpr ⟨before, after, rfl, fun field hfield => ?_⟩
    grind

end fields

/-- The fields of two objects match, none of them repeated. -/
structure SameFields (fields others : List (String × Json)) : Prop where
  nodup : (fields.map Prod.fst).Nodup
  names : (fields.map Prod.fst).Perm (others.map Prod.fst)
  values : ∀ name value other, (name, value) ∈ fields → (name, other) ∈ others →
    SameValue value other

namespace SameFields

variable {fields others : List (String × Json)} {name : String} {other : Json}

/-- Fields without repeated names match themselves in any order. -/
theorem of_perm (hnodup : (others.map Prod.fst).Nodup) (hperm : fields.Perm others) :
    SameFields fields others where
  nodup := (hperm.map Prod.fst).nodup_iff.mpr hnodup
  names := hperm.map Prod.fst
  values := by
    intro name value other hvalue hother
    have hread := (lookup_eq_some_iff_mem hnodup).mpr (hperm.mem_iff.mp hvalue)
    rw [(lookup_eq_some_iff_mem hnodup).mpr hother] at hread
    exact Option.some.inj hread ▸ .refl other

theorem sameValue (hfields : SameFields fields others) :
    SameValue (.object fields) (.object others) :=
  .object hfields.nodup hfields.names hfields.values

/-- A name finds the same value on both sides, or nothing on either. -/
theorem rel_lookup (hfields : SameFields fields others) (name : String) :
    Option.Rel SameValue (fields.lookup name) (others.lookup name) := by
  cases hother : others.lookup name with
  | some other =>
    have hmem := (lookup_eq_some_iff_mem (hfields.names.nodup_iff.mp hfields.nodup)).mp hother
    have hname := hfields.names.mem_iff.mpr (List.mem_map_of_mem (f := Prod.fst) hmem)
    obtain ⟨⟨_, value⟩, hvalue, rfl⟩ := List.mem_map.mp hname
    rw [(lookup_eq_some_iff_mem hfields.nodup).mpr hvalue]
    exact .some (hfields.values _ _ _ hvalue hmem)
  | none =>
    have hnone : fields.lookup name = none := by
      refine List.lookup_eq_none_iff.mpr fun field hfield => ?_
      have hname := hfields.names.mem_iff.mp (List.mem_map_of_mem (f := Prod.fst) hfield)
      obtain ⟨other, hmem, heq⟩ := List.mem_map.mp hname
      rw [← heq]
      exact List.lookup_eq_none_iff.mp hother other hmem
    rw [hnone]
    exact .none

/-- A record is read from an object in any order of its fields. -/
theorem exists_record? (hfields : SameFields fields others) (names : List String) :
    ∃ values, record? (names.map fun name => [name]) (.object fields) = some values ∧
      List.Forall₂ (Option.Rel SameValue) values (names.map fun name => others.lookup name) := by
  refine ⟨_, record?_eq_lookup hfields.nodup names, ?_⟩
  refine List.forall₂_map_left_iff.mpr (List.forall₂_map_right_iff.mpr ?_)
  exact List.forall₂_same.mpr fun name _ => hfields.rel_lookup name

end SameFields

/-! ## Values by their form -/

section forms

variable {json : Json}

theorem SameValue.eq_string {text : String} (h : SameValue json (.string text)) :
    json = .string text := by
  cases h
  rfl

theorem SameValue.exists_array {others : List Json} (h : SameValue json (.array others)) :
    ∃ items, json = .array items ∧ List.Forall₂ SameValue items others := by
  cases h with
  | refl => exact ⟨others, rfl, List.forall₂_same.mpr fun item _ => .refl item⟩
  | array hitems => exact ⟨_, rfl, hitems⟩

theorem SameValue.exists_object {others : List (String × Json)}
    (hnodup : (others.map Prod.fst).Nodup) (h : SameValue json (.object others)) :
    ∃ fields, json = .object fields ∧ SameFields fields others := by
  cases h with
  | refl => exact ⟨others, rfl, .of_perm hnodup (.refl _)⟩
  | object hown hnames hvalues => exact ⟨_, rfl, hown, hnames, hvalues⟩

/-- Fields that match texts are these texts in some order. -/
theorem SameFields.exists_perm_of_strings {fields : List (String × Json)}
    {texts : List (String × String)}
    (hfields : SameFields fields (texts.map fun text => (text.1, .string text.2))) :
    ∃ found : List (String × String),
      fields = found.map (fun text => (text.1, .string text.2)) ∧ found.Perm texts := by
  -- A field that matches a text is that text, and there are as many fields as texts.
  have hsubset : fields ⊆ texts.map fun text => (text.1, .string text.2) := by
    rintro ⟨name, value⟩ hvalue
    have hname := hfields.names.mem_iff.mp (List.mem_map_of_mem (f := Prod.fst) hvalue)
    obtain ⟨⟨_, other⟩, hother, rfl⟩ := List.mem_map.mp hname
    obtain ⟨text, -, heq⟩ := List.mem_map.mp hother
    obtain ⟨rfl, rfl⟩ := Prod.mk.inj heq
    rwa [(hfields.values _ _ _ hvalue hother).eq_string]
  have hperm : fields.Perm (texts.map fun text => (text.1, .string text.2)) := by
    refine (List.subperm_of_subset (hfields.nodup.of_map _) hsubset).perm_of_length_le ?_
    simpa using Nat.le_of_eq hfields.names.length_eq.symm
  let unwrap (field : String × Json) : String × String := (field.1, field.2.string?.getD "")
  refine ⟨fields.map unwrap, ?_, ?_⟩
  · rw [List.map_map]
    conv_lhs => rw [← List.map_id fields]
    refine List.map_congr_left fun field hfield => ?_
    obtain ⟨text, -, rfl⟩ := List.mem_map.mp (hsubset hfield)
    rfl
  · have htexts := hperm.map unwrap
    rwa [List.map_map, show unwrap ∘ _ = id from rfl, List.map_id] at htexts

end forms

/-! ## Readers of written values -/

/-- A reader finds what was written in every value that is the same as the written one. -/
def ReadsBack {α : Type} (toJson : α → Json) (ofJson? : Json → Option α) : Prop :=
  ∀ a json, SameValue json (toJson a) → ofJson? json = some a

namespace ReadsBack

variable {α : Type} {toJson : α → Json} {ofJson? : Json → Option α}

/-- What is read back is told apart. -/
theorem eq_of_sameValue (hread : ReadsBack toJson ofJson?) {a b : α}
    (hsame : SameValue (toJson a) (toJson b)) : a = b := by
  have hself := hread a _ (.refl _)
  rw [hread b _ hsame] at hself
  exact (Option.some.inj hself).symm

/-- A list is read back item by item. -/
theorem list (hread : ReadsBack toJson ofJson?) :
    ReadsBack (fun as => .array (as.map toJson)) (Json.list? ofJson?) := by
  intro as json hsame
  obtain ⟨items, rfl, hitems⟩ := hsame.exists_array
  show items.mapM ofJson? = some as
  clear hsame
  induction as generalizing items with
  | nil =>
    cases hitems
    rfl
  | cons a as ih =>
    cases hitems with
    | cons hitem hitems =>
      rw [List.mapM_cons, hread a _ hitem, ih _ hitems]
      rfl

end ReadsBack

end Reckoner.Json
