import Reckoner.Json.Printer
import Reckoner.Json.Reader
import Mathlib.Data.List.DropRight
import Mathlib.Data.List.Forall2

/-!
# Printed values read back

A value without numbers is read back from either of its two printed forms, whatever its texts, its
keys and its nesting. The law is compositional: a text `Reads` as a value when a reader with enough
steps takes just that text off the front of any input, and each construct of the format carries the
law from its parts to the whole. The two printers then differ only in the blanks that they leave.
-/

namespace Reckoner.Json

/-! ## Quoted texts -/

/-- The digits of a control character are read as its number. -/
theorem codeUnit?_hexDigits :
    ∀ n < 0x20, codeUnit? '0' '0' (hexDigit (n / 16)) (hexDigit n) = some n := by
  decide

/-- What is written for a character is one piece of a text, and the piece spells the character. -/
theorem exists_unit (c : Char) :
    ∃ unit, (∀ found rest, textUnits found (escapedChar c ++ rest) =
        textUnits (unit :: found) rest) ∧
      ∀ spelt rest, spell spelt (unit :: rest) = spell (c :: spelt) rest := by
  unfold escapedChar
  split
  · exact ⟨.char '"', fun _ _ => rfl, fun _ _ => rfl⟩
  · exact ⟨.char '\\', fun _ _ => rfl, fun _ _ => rfl⟩
  · exact ⟨.char '\x08', fun _ _ => rfl, fun _ _ => rfl⟩
  · exact ⟨.char '\x0c', fun _ _ => rfl, fun _ _ => rfl⟩
  · exact ⟨.char '\n', fun _ _ => rfl, fun _ _ => rfl⟩
  · exact ⟨.char '\r', fun _ _ => rfl, fun _ _ => rfl⟩
  · exact ⟨.char '\t', fun _ _ => rfl, fun _ _ => rfl⟩
  · next hquote hbackslash _ _ _ _ _ =>
    -- Only a control character is written by its number, which no other code unit pairs with.
    split
    · next hcontrol =>
      refine ⟨.code c.toNat, fun found rest => ?_, fun spelt rest => ?_⟩
      · simp only [List.cons_append, List.nil_append, textUnits, codeUnit?_hexDigits _ hcontrol]
      · rw [spell.eq_def]
        dsimp only
        rw [if_pos (by omega), Char.ofNat_toNat]
    · next hprintable =>
      refine ⟨.char c, fun found rest => ?_, fun spelt rest => rfl⟩
      rw [List.singleton_append, textUnits, if_neg hprintable] <;> simp_all

/-- A text is read back from what is written between its quotes. -/
theorem quoted_escaped (text rest : List Char) :
    quoted (text.flatMap escapedChar ++ '"' :: rest) = some (some (String.ofList text), rest) := by
  have hunits : ∃ units,
      (∀ found, textUnits found (text.flatMap escapedChar ++ '"' :: rest) =
        some (found.reverse ++ units, rest)) ∧
      ∀ spelt, spell spelt units = some (spelt.reverse ++ text) := by
    induction text with
    | nil => exact ⟨[], fun found => by simp [textUnits], fun spelt => by simp [spell]⟩
    | cons c text ih =>
      obtain ⟨unit, hread, hspell⟩ := exists_unit c
      obtain ⟨units, hreads, hspells⟩ := ih
      refine ⟨unit :: units, fun found => ?_, fun spelt => ?_⟩
      · rw [List.flatMap_cons, List.append_assoc, hread, hreads]
        simp
      · rw [hspell, hspells]
        simp
  obtain ⟨units, hreads, hspells⟩ := hunits
  rw [quoted, hreads]
  simp [hspells]

/-! ## Blanks -/

/-- Nothing but blanks. -/
def IsBlank (text : List Char) : Prop :=
  ∀ c ∈ text, isSpace c = true

theorem isBlank_nil : IsBlank [] := by
  simp [IsBlank]

theorem isBlank_lineBreak (level : Nat) : IsBlank (lineBreak level).toList := by
  intro c hc
  simp only [lineBreak, String.toList_ofList, List.mem_cons, List.mem_replicate] at hc
  rcases hc with rfl | ⟨-, rfl⟩ <;> rfl

variable {blank text rest : List Char} {json : Json}

theorem skipSpace_append (hblank : IsBlank blank) (text : List Char) :
    skipSpace (blank ++ text) = skipSpace text :=
  List.dropWhile_append_of_pos hblank

theorem skipSpace_cons {c : Char} (hc : isSpace c = false) (text : List Char) :
    skipSpace (c :: text) = c :: text :=
  List.dropWhile_cons_of_neg (Bool.eq_false_iff.mp hc)

@[simp] theorem skipSpace_skipSpace (text : List Char) :
    skipSpace (skipSpace text) = skipSpace text :=
  List.dropWhile_idempotent ..

/-- Blanks in front of a value do no harm. -/
theorem value_skipSpace (steps : Nat) (text : List Char) :
    value steps (skipSpace text) = value steps text := by
  cases steps with
  | zero => rw [value, value]
  | succ steps => rw [value, value, skipSpace_skipSpace]

theorem elements_skipSpace (steps : Nat) (found : List Json) (text : List Char) :
    elements steps found (skipSpace text) = elements steps found text := by
  cases steps with
  | zero => rw [elements, elements]
  | succ steps => rw [elements, elements, value_skipSpace]

theorem members_skipSpace (steps : Nat) (found : List (Option String × Json)) (text : List Char) :
    members steps found (skipSpace text) = members steps found text := by
  cases steps with
  | zero => rw [members, members]
  | succ steps => rw [members, members, skipSpace_skipSpace]

/-! ## Texts that read as values -/

/-- However the input goes on behind it, a text is read as the value, given two steps for each of
its characters. -/
def Reads (text : List Char) (json : Json) : Prop :=
  ∀ steps rest, 2 * text.length ≤ steps → value (steps + 1) (text ++ rest) = some (json, rest)

/-- A text is a field of an object: a key in quotes, a colon, and a text that reads as the value. -/
def IsField (text : List Char) (field : String × Json) : Prop :=
  ∃ blank tail, IsBlank blank ∧
    text = blank ++ '"' :: (field.1.toList.flatMap escapedChar ++ '"' :: ':' :: tail) ∧
      Reads tail field.2

namespace Reads

/-- Blanks may stand in front. -/
theorem blank_append (hreads : Reads text json) (hblank : IsBlank blank) :
    Reads (blank ++ text) json := by
  intro steps rest hsteps
  rw [List.length_append] at hsteps
  rw [← value_skipSpace, List.append_assoc, skipSpace_append hblank, value_skipSpace]
  exact hreads steps rest (by omega)

/-- No value begins like the end of an array. -/
theorem skipSpace_ne (hreads : Reads text json) (rest tail : List Char) :
    skipSpace (text ++ rest) ≠ ']' :: tail := by
  intro heq
  have hread := hreads (2 * text.length) rest le_rfl
  rw [← value_skipSpace, heq] at hread
  cases hread

theorem null : Reads "null".toList .null :=
  fun _ _ _ => rfl

theorem bool (value : Bool) : Reads (if value then "true" else "false").toList (.bool value) := by
  intro steps rest _
  cases value <;> rfl

theorem string (text : String) : Reads (quotedText text).toList (.string text) := by
  intro steps rest _
  have htext : (quotedText text).toList ++ rest =
      '"' :: (text.toList.flatMap escapedChar ++ '"' :: rest) := by
    simp [quotedText]
  have hquoted := quoted_escaped text.toList rest
  rw [String.ofList_toList] at hquoted
  rw [htext, value]
  show (quoted _).map _ = _
  rw [hquoted]
  rfl

end Reads

variable {texts : List (List Char)} {items : List Json} {fields : List (String × Json)}

/-- Items with commas between them are read up to the bracket that closes the array. -/
theorem elements_intercalate (hitems : List.Forall₂ Reads texts items) (hne : texts ≠ [])
    (hblank : IsBlank blank) (rest : List Char) (steps : Nat) (found : List Json)
    (hsteps : 2 * ([','].intercalate texts).length < steps) :
    elements (steps + 1) found ([','].intercalate texts ++ (blank ++ ']' :: rest)) =
      some (.array (found.reverse ++ items), rest) := by
  induction hitems generalizing steps found with
  | nil => exact absurd rfl hne
  | @cons text item texts items hitem hitems ih =>
    obtain ⟨steps, rfl⟩ := Nat.exists_eq_add_one_of_ne_zero (show steps ≠ 0 by omega)
    cases hitems with
    | nil =>
      rw [List.intercalate_singleton] at hsteps ⊢
      rw [elements, hitem steps _ (by omega)]
      dsimp only
      rw [skipSpace_append hblank]
      show some (array (item :: found).reverse, rest) = _
      rw [List.reverse_cons]
    | @cons second next texts items hsecond hitems =>
      rw [List.intercalate_cons_cons] at hsteps ⊢
      simp only [List.length_append, List.length_singleton] at hsteps
      rw [elements, List.append_assoc, List.append_assoc, hitem steps _ (by omega)]
      refine (ih (List.cons_ne_nil _ _) steps (item :: found) (by omega)).trans ?_
      simp

/-- A field is read up to the mark behind it: a comma before the next field, or the brace that
closes the object. -/
theorem members_field {field : String × Json} (hfield : IsField text field) {tail : List Char}
    (steps : Nat) (found : List (Option String × Json)) (hsteps : 2 * text.length ≤ steps) :
    (skipSpace rest = ',' :: tail → members (steps + 2) found (text ++ rest) =
      members (steps + 1) ((some field.1, field.2) :: found) tail) ∧
    (skipSpace rest = '}' :: tail → members (steps + 2) found (text ++ rest) =
      some (objectOf ((some field.1, field.2) :: found).reverse, tail)) := by
  obtain ⟨before, own, hbefore, rfl, hvalue⟩ := hfield
  simp only [List.length_append, List.length_cons] at hsteps
  have hquoted := quoted_escaped field.1.toList (':' :: (own ++ rest))
  rw [String.ofList_toList] at hquoted
  have hread := hvalue steps rest (by omega)
  rw [members, List.append_assoc, skipSpace_append hbefore, List.cons_append, List.append_assoc,
    skipSpace_cons (by decide)]
  simp only [List.cons_append, hquoted, skipSpace_cons (show isSpace ':' = false by decide), hread]
  exact ⟨fun hrest => by simp only [hrest], fun hrest => by simp only [hrest]⟩

/-- Fields with commas between them are read up to the brace that closes the object. -/
theorem members_intercalate (hfields : List.Forall₂ IsField texts fields) (hne : texts ≠ [])
    (hblank : IsBlank blank) (rest : List Char) (steps : Nat)
    (found : List (Option String × Json))
    (hsteps : 2 * ([','].intercalate texts).length < steps) :
    members (steps + 1) found ([','].intercalate texts ++ (blank ++ '}' :: rest)) =
      some (objectOf (found.reverse ++ fields.map fun field => (some field.1, field.2)), rest) := by
  induction hfields generalizing steps found with
  | nil => exact absurd rfl hne
  | @cons text field texts fields hfield hfields ih =>
    obtain ⟨steps, rfl⟩ := Nat.exists_eq_add_one_of_ne_zero (show steps ≠ 0 by omega)
    cases hfields with
    | nil =>
      rw [List.intercalate_singleton] at hsteps ⊢
      have hlast := skipSpace_append hblank ('}' :: rest)
      refine ((members_field hfield steps found (by omega)).2 hlast).trans ?_
      rw [List.reverse_cons]
      rfl
    | cons hsecond hfields =>
      rw [List.intercalate_cons_cons] at hsteps ⊢
      simp only [List.length_append, List.length_singleton] at hsteps
      rw [List.append_assoc, List.append_assoc]
      have hcomma := skipSpace_cons (show isSpace ',' = false by decide)
      refine ((members_field hfield steps found (by omega)).1 (hcomma _)).trans ?_
      refine (ih (List.cons_ne_nil _ _) steps _ (by omega)).trans ?_
      simp

/-- Keys that are all there make an object. -/
theorem objectOf_map (fields : List (String × Json)) :
    objectOf (fields.map fun field => (some field.1, field.2)) = object fields := by
  have hkeys : fields.mapM some = some fields := by
    simpa using List.mapM_pure (m := Option) (l := fields) (f := id)
  unfold objectOf
  rw [List.mapM_map]
  simp [Function.comp_def, hkeys]

/-- Joined texts begin with the first of them. -/
theorem exists_intercalate_cons (text : List Char) (texts : List (List Char)) :
    ∃ tail, [','].intercalate (text :: texts) = text ++ tail := by
  cases texts with
  | nil => exact ⟨[], by simp⟩
  | cons second texts => exact ⟨_, by rw [List.intercalate_cons_cons, List.append_assoc]⟩

/-- Texts that read as the items are joined to a text that reads as the array. -/
theorem Reads.array (hitems : List.Forall₂ Reads texts items) (hblank : IsBlank blank) :
    Reads ('[' :: ([','].intercalate texts ++ (blank ++ [']']))) (.array items) := by
  intro steps rest hsteps
  simp only [List.length_cons, List.length_append] at hsteps
  obtain ⟨steps, rfl⟩ := Nat.exists_eq_add_one_of_ne_zero (show steps ≠ 0 by omega)
  rw [value, List.cons_append, skipSpace_cons (by decide)]
  simp only [List.append_assoc, List.singleton_append]
  cases hitems with
  | nil => simp only [List.intercalate_nil, List.nil_append, skipSpace_append hblank,
      skipSpace_cons (show isSpace ']' = false by decide)]
  | @cons text _ texts _ hitem hitems =>
    -- The reader looks for the closing bracket first; no item begins with one.
    split
    · next heq =>
      obtain ⟨tail, htail⟩ := exists_intercalate_cons text texts
      rw [htail, List.append_assoc] at heq
      exact absurd heq (hitem.skipSpace_ne _ _)
    · rw [elements_skipSpace]
      exact elements_intercalate (.cons hitem hitems) (List.cons_ne_nil _ _) hblank rest steps []
        (by omega)

/-- Texts that are the fields are joined to a text that reads as the object. -/
theorem Reads.object (hfields : List.Forall₂ IsField texts fields) (hblank : IsBlank blank) :
    Reads ('{' :: ([','].intercalate texts ++ (blank ++ ['}']))) (.object fields) := by
  intro steps rest hsteps
  simp only [List.length_cons, List.length_append] at hsteps
  obtain ⟨steps, rfl⟩ := Nat.exists_eq_add_one_of_ne_zero (show steps ≠ 0 by omega)
  rw [value, List.cons_append, skipSpace_cons (by decide)]
  simp only [List.append_assoc, List.singleton_append]
  cases hfields with
  | nil => simp only [List.intercalate_nil, List.nil_append, skipSpace_append hblank,
      skipSpace_cons (show isSpace '}' = false by decide)]
  | @cons text _ texts _ hfield hfields =>
    -- A field begins with a quote, so the object is not closed yet.
    split
    · next heq =>
      obtain ⟨tail, htail⟩ := exists_intercalate_cons text texts
      obtain ⟨before, _, hbefore, rfl, -⟩ := hfield
      rw [htail, List.append_assoc, List.append_assoc, skipSpace_append hbefore] at heq
      cases heq
    · rw [members_skipSpace, members_intercalate (.cons hfield hfields) (List.cons_ne_nil _ _)
        hblank rest steps [] (by omega)]
      exact congrArg (fun json => some (json, rest)) (objectOf_map _)

/-! ## The two printed forms -/

/-- A value without numbers, in which nothing is unusable. -/
inductive IsNumberless : Json → Prop
  | null : IsNumberless .null
  | bool (value : Bool) : IsNumberless (.bool value)
  | string (text : String) : IsNumberless (.string text)
  | array {items : List Json} (hitems : ∀ item ∈ items, IsNumberless item) :
      IsNumberless (.array items)
  | object {fields : List (String × Json)} (hfields : ∀ field ∈ fields, IsNumberless field.2) :
      IsNumberless (.object fields)

/-- A text that reads as a value is read as it when it is all there is. -/
theorem parse?_of_reads {text : String} (hreads : Reads text.toList json) :
    parse? text = some json := by
  have hread := hreads (2 * text.toList.length + 1) [] (by omega)
  rw [List.append_nil] at hread
  unfold parse?
  simp only [hread]
  rfl

theorem compactItems_eq_map (items : List Json) : compactItems items = items.map compact := by
  induction items with
  | nil => rfl
  | cons item items ih => rw [compactItems, ih, List.map_cons]

theorem compactFields_eq_map (fields : List (String × Json)) :
    compactFields fields =
      fields.map fun (key, value) => quotedText key ++ ":" ++ compact value := by
  induction fields with
  | nil => rfl
  | cons field fields ih => rw [compactFields, ih, List.map_cons]

theorem indentedItems_eq_map (level : Nat) (items : List Json) :
    indentedItems level items = items.map (indented level) := by
  induction items with
  | nil => rfl
  | cons item items ih => rw [indentedItems, ih, List.map_cons]

theorem indentedFields_eq_map (level : Nat) (fields : List (String × Json)) :
    indentedFields level fields =
      fields.map fun (key, value) => quotedText key ++ ": " ++ indented level value := by
  induction fields with
  | nil => rfl
  | cons field fields ih => rw [indentedFields, ih, List.map_cons]

/-- Blanks may stand in front of a field. -/
theorem IsField.blank_append {field : String × Json} (hfield : IsField text field)
    (hblank : IsBlank blank) : IsField (blank ++ text) field := by
  obtain ⟨before, own, hbefore, rfl, hreads⟩ := hfield
  exact ⟨blank ++ before, own, List.forall_mem_append.mpr ⟨hblank, hbefore⟩,
    (List.append_assoc ..).symm, hreads⟩

/-- A key and a value are written as a field, with blanks behind the colon or without. -/
theorem isField_quotedText (key colon value : String) {after : List Char}
    (hcolon : colon.toList = ':' :: after) (hafter : IsBlank after)
    (hreads : Reads value.toList json) :
    IsField (quotedText key ++ colon ++ value).toList (key, json) := by
  refine ⟨[], after ++ value.toList, isBlank_nil, ?_, hreads.blank_append hafter⟩
  simp [quotedText, hcolon]

/-- A value without numbers is read back from one line. -/
theorem reads_compact (hjson : json.IsNumberless) : Reads json.compact.toList json := by
  induction hjson with
  | null => exact .null
  | bool value => exact .bool value
  | string text => exact .string text
  | @array items hitems ih =>
    have htext : (compact (.array items)).toList =
        '[' :: ([','].intercalate (items.map fun item => item.compact.toList) ++
          ([] ++ [']'])) := by
      simp [compact, compactItems_eq_map, Function.comp_def]
    rw [htext]
    exact .array (List.forall₂_map_left_iff.mpr (List.forall₂_same.mpr ih)) isBlank_nil
  | @object fields hfields ih =>
    let written (field : String × Json) := (quotedText field.1 ++ ":" ++ field.2.compact).toList
    have htext : (compact (.object fields)).toList =
        '{' :: ([','].intercalate (fields.map written) ++ ([] ++ ['}'])) := by
      simp [written, compact, compactFields_eq_map, Function.comp_def]
    have hwritten : List.Forall₂ IsField (fields.map written) fields := by
      refine List.forall₂_map_left_iff.mpr (List.forall₂_same.mpr fun field hfield => ?_)
      exact isField_quotedText field.1 ":" field.2.compact rfl isBlank_nil (ih field hfield)
    rw [htext]
    exact .object hwritten isBlank_nil

/-- Blanks in front of the first text and behind each comma are blanks in front of each text. -/
theorem append_intercalate (blank : List Char) (hne : texts ≠ []) :
    blank ++ (',' :: blank).intercalate texts = [','].intercalate (texts.map (blank ++ ·)) := by
  induction texts with
  | nil => exact absurd rfl hne
  | cons text texts ih =>
    cases texts with
    | nil => simp
    | cons second texts =>
      have hrest := ih (List.cons_ne_nil _ _)
      simp only [List.map_cons, List.intercalate_cons_cons] at hrest ⊢
      rw [← hrest]
      simp

/-- Brackets enclose parts with blanks in front of each and behind the last. -/
theorem toList_bracketed (opening closing : String) (level : Nat) (parts : List String) :
    ∃ blank, IsBlank blank ∧ (bracketed opening closing level parts).toList =
      opening.toList ++ ([','].intercalate
        (parts.map fun part => (lineBreak (level + 1)).toList ++ part.toList) ++
          (blank ++ closing.toList)) := by
  unfold bracketed
  split
  · exact ⟨[], isBlank_nil, by simp⟩
  · next hne =>
    refine ⟨(lineBreak level).toList, isBlank_lineBreak level, ?_⟩
    have hparts : parts.map String.toList ≠ [] := by simpa using hne
    have hjoin := append_intercalate (lineBreak (level + 1)).toList hparts
    rw [List.map_map] at hjoin
    have htext : (opening ++ lineBreak (level + 1) ++
        String.intercalate ("," ++ lineBreak (level + 1)) parts ++
          lineBreak level ++ closing).toList =
        opening.toList ++ (((lineBreak (level + 1)).toList ++
          (',' :: (lineBreak (level + 1)).toList).intercalate (parts.map String.toList)) ++
            ((lineBreak level).toList ++ closing.toList)) := by
      simp [String.toList_intercalate]
    rw [htext, hjoin]
    rfl

/-- A value without numbers is read back from many lines, inside any number of levels. -/
theorem reads_indented (hjson : json.IsNumberless) (level : Nat) :
    Reads (json.indented level).toList json := by
  induction hjson generalizing level with
  | null => exact .null
  | bool value => exact .bool value
  | string text => exact .string text
  | @array items hitems ih =>
    obtain ⟨blank, hblank, htext⟩ :=
      toList_bracketed "[" "]" level (indentedItems (level + 1) items)
    rw [indented, htext, indentedItems_eq_map, List.map_map]
    refine .array (List.forall₂_map_left_iff.mpr (List.forall₂_same.mpr ?_)) hblank
    intro item hitem
    exact (ih item hitem (level + 1)).blank_append (isBlank_lineBreak (level + 1))
  | @object fields hfields ih =>
    obtain ⟨blank, hblank, htext⟩ :=
      toList_bracketed "\x7b" "\x7d" level (indentedFields (level + 1) fields)
    rw [indented, htext, indentedFields_eq_map, List.map_map]
    refine .object (List.forall₂_map_left_iff.mpr (List.forall₂_same.mpr ?_)) hblank
    intro field hfield
    have hspace : IsBlank [' '] := by simp [IsBlank, isSpace]
    have hwritten := isField_quotedText field.1 ": " (field.2.indented (level + 1)) rfl
      hspace (ih field hfield (level + 1))
    exact hwritten.blank_append (isBlank_lineBreak (level + 1))

/-- A value without numbers is what its text on one line is read as. -/
theorem parse?_compact (hjson : json.IsNumberless) : parse? json.compact = some json :=
  parse?_of_reads (reads_compact hjson)

/-- A value without numbers is what its text on many lines is read as. -/
theorem parse?_pretty (hjson : json.IsNumberless) : parse? json.pretty = some json :=
  parse?_of_reads (reads_indented hjson 0)

end Reckoner.Json
