import Reckoner.Proofs.Settings.Assignment
import Reckoner.Session

/-!
# What commands do to settings

A command is free text. This file proves that nothing but the name and the value in it counts, which
its last blank parts, and that these settle what the command does before any settings are known: it
is refused by all of them, or it writes one value to one setting. So of any commands, however they
are mixed, the last one that was accepted for a setting decides what the setting holds.
-/

namespace Reckoner

namespace Assignment

/-! ## The name and the value -/

variable {text front back : List Char}

/-- A text without blanks is not split. -/
theorem splitAtLastBlank_eq_none (htext : ∀ c ∈ text, Text.isBlank c = false) :
    splitAtLastBlank text = none := by
  induction text with
  | nil => rfl
  | cons c rest ih =>
    obtain ⟨hc, hrest⟩ := List.forall_mem_cons.mp htext
    simp [splitAtLastBlank, ih hrest, hc]

/-- A text that is not split has no blanks. -/
theorem not_isBlank_of_splitAtLastBlank (hnone : splitAtLastBlank text = none) :
    ∀ c ∈ text, Text.isBlank c = false := by
  induction text with
  | nil => simp
  | cons c rest ih =>
    rw [splitAtLastBlank] at hnone
    split at hnone
    · cases hnone
    · next hrest =>
      split at hnone
      · cases hnone
      · next hc => exact List.forall_mem_cons.mpr ⟨Bool.eq_false_iff.mpr hc, ih hrest⟩

/-- A text is split at a blank after which there is no other. -/
theorem splitAtLastBlank_eq_some_iff : splitAtLastBlank text = some (front, back) ↔
    ∃ blank, text = front ++ blank :: back ∧ Text.isBlank blank = true ∧
      ∀ c ∈ back, Text.isBlank c = false := by
  constructor
  · intro hsplit
    induction text generalizing front with
    | nil => cases hsplit
    | cons c rest ih =>
      rw [splitAtLastBlank] at hsplit
      split at hsplit
      · next front' back' hrest =>
        obtain ⟨rfl, rfl⟩ := Prod.mk.inj (Option.some.inj hsplit)
        obtain ⟨blank, rfl, hblank, hback⟩ := ih hrest
        exact ⟨blank, rfl, hblank, hback⟩
      · next hrest =>
        split at hsplit
        · next hc =>
          obtain ⟨rfl, rfl⟩ := Prod.mk.inj (Option.some.inj hsplit)
          exact ⟨c, rfl, hc, not_isBlank_of_splitAtLastBlank hrest⟩
        · cases hsplit
  · rintro ⟨blank, rfl, hblank, hback⟩
    induction front with
    | nil => simp [splitAtLastBlank, splitAtLastBlank_eq_none hback, hblank]
    | cons c front ih => rw [List.cons_append, splitAtLastBlank, ih]

/-- The name and the value of a command: what stands before and after the last blank of the command,
with its letters in lower case, and with the blanks dropped at the ends of the command and of both
parts. -/
def HasParts (command name value : String) : Prop :=
  ∃ front blank back, normalizedCommand command = front ++ blank :: back ∧
    Text.isBlank blank = true ∧ (∀ c ∈ back, Text.isBlank c = false) ∧
      name = String.ofList (Text.trimmed front) ∧ value = String.ofList (Text.trimmed back)

/-- The name and the value are found by splitting the command once. -/
theorem hasParts_iff {command name value : String} : HasParts command name value ↔
    ∃ front back, splitAtLastBlank (normalizedCommand command) = some (front, back) ∧
      name = String.ofList (Text.trimmed front) ∧ value = String.ofList (Text.trimmed back) := by
  constructor
  · rintro ⟨front, blank, back, hcommand, hblank, hback, hname, hvalue⟩
    exact ⟨front, back, splitAtLastBlank_eq_some_iff.mpr ⟨blank, hcommand, hblank, hback⟩,
      hname, hvalue⟩
  · rintro ⟨front, back, hsplit, hname, hvalue⟩
    obtain ⟨blank, hcommand, hblank, hback⟩ := splitAtLastBlank_eq_some_iff.mp hsplit
    exact ⟨front, blank, back, hcommand, hblank, hback, hname, hvalue⟩

/-- A command stands for the assignment of its value to the setting of its name. -/
theorem read?_eq_some_iff {command : String} {assignment : Assignment} :
    read? command = some assignment ↔
      ∃ name value, HasParts command name value ∧ ofNameAndValue? name value = some assignment := by
  constructor
  · intro hread
    obtain ⟨⟨front, back⟩, hsplit, hassignment⟩ := Option.bind_eq_some_iff.mp hread
    exact ⟨_, _, hasParts_iff.mpr ⟨front, back, hsplit, rfl, rfl⟩, hassignment⟩
  · rintro ⟨_, _, hparts, hassignment⟩
    obtain ⟨front, back, hsplit, rfl, rfl⟩ := hasParts_iff.mp hparts
    exact Option.bind_eq_some_iff.mpr ⟨(front, back), hsplit, hassignment⟩

/-- Commands with the same name and value stand for the same assignment, if for any. -/
theorem read?_congr {command command' : String}
    (hparts : ∀ name value, HasParts command name value ↔ HasParts command' name value) :
    read? command = read? command' := by
  refine Option.ext fun assignment => ?_
  rw [read?_eq_some_iff, read?_eq_some_iff]
  simp only [hparts]

/-! ## One command -/

/-- A command that no settings accept. What it is refused with is the command itself, without blanks
at its ends and in lower case. -/
def Refused (command : String) : Prop :=
  ∀ settings : Settings, settings.setOption command =
    .error (.invalidSetting (String.ofList (normalizedCommand command)))

/-- A command that all settings accept, by which one of them comes to hold a value and no other
changes. -/
def Writes (command : String) (assignment : Assignment) : Prop :=
  ∀ settings : Settings, ∃ settings', settings.setOption command = .ok settings' ∧
    settings'.held assignment.setting = assignment ∧
      ∀ other ≠ assignment.setting, settings'.held other = settings.held other

/-- A command that stands for no assignment is refused. -/
theorem refused_of_read? {command : String} (hread : read? command = none) : Refused command := by
  intro settings
  rw [Settings.setOption, hread]

/-- A command is refused just when it stands for no assignment. -/
theorem refused_iff {command : String} : Refused command ↔ read? command = none := by
  refine ⟨fun hrefused => ?_, refused_of_read?⟩
  cases hread : read? command with
  | none => rfl
  | some assignment =>
    have herror := hrefused {}
    rw [Settings.setOption, hread] at herror
    cases herror

/-- A command that stands for an assignment writes it. -/
theorem writes_of_read? {command : String} {assignment : Assignment}
    (hread : read? command = some assignment) : Writes command assignment := by
  intro settings
  refine ⟨assignment.apply settings, by rw [Settings.setOption, hread], ?_, fun other hother => ?_⟩
  · rw [Settings.held_apply, if_pos rfl]
  · rw [Settings.held_apply, if_neg hother.symm]

end Assignment

/-! ## Many commands -/

namespace Session

open Assignment Settings

variable {σ : Type}

/-- The session after some commands, one after another. -/
def afterCommands (session : Session σ) (commands : List String) : Session σ :=
  commands.foldl (fun s command => (s.setOption command).2) session

/-- A command is accepted if it stands for an assignment, and carries out just that. -/
theorem setOption_eq (session : Session σ) (command : String) :
    session.setOption command = ((read? command).isSome,
      { session with settings := session.settings.assigned (read? command).toList }) := by
  rw [setOption, Settings.setOption]
  cases read? command <;> rfl

/-- Some commands carry out the assignments that those of them stand for which are accepted. -/
theorem afterCommands_eq (session : Session σ) (commands : List String) :
    session.afterCommands commands =
      { session with settings := session.settings.assigned (commands.filterMap read?) } := by
  induction commands generalizing session with
  | nil => rfl
  | cons command others ih =>
    have hsplit : (command :: others).filterMap read? =
        (read? command).toList ++ others.filterMap read? := by
      cases hread : read? command with
      | none => rw [List.filterMap_cons_none hread]; rfl
      | some assignment => rw [List.filterMap_cons_some hread]; rfl
    rw [hsplit, assigned_append]
    show (session.setOption command).2.afterCommands others = _
    rw [ih, setOption_eq]

/-- Whether a command is accepted and what it writes is settled by its name and its value alone. Any
sequence of commands leaves each setting with what the last accepted one for it wrote, or as it was,
and nothing else of the session changes. So an accepted command may be repeated, two for different
settings may change places, and of two for the same setting the first may be left out. -/
theorem afterCommands_last_accepted :
    (∀ command,
      read? command = none ∧ Refused command ∧
          (∀ session : Session σ, session.setOption command = (false, session)) ∨
        ∃ assignment, read? command = some assignment ∧ Writes command assignment ∧
          ∀ session : Session σ, (session.setOption command).1 = true) ∧
    (∀ command command',
      (∀ name value, HasParts command name value ↔ HasParts command' name value) →
        read? command = read? command') ∧
    (∀ (session : Session σ) (commands : List String), ∃ settings : Settings,
      session.afterCommands commands = { session with settings } ∧
      ∀ setting, settings.held setting =
        (lastTo? setting (commands.filterMap read?)).getD (session.settings.held setting)) ∧
    ∀ (session : Session σ) (first second : String) (a b : Assignment),
      read? first = some a → read? second = some b →
        session.afterCommands [first, first] = session.afterCommands [first] ∧
        (a.setting ≠ b.setting →
          session.afterCommands [first, second] = session.afterCommands [second, first]) ∧
        (a.setting = b.setting →
          session.afterCommands [first, second] = session.afterCommands [second]) := by
  refine ⟨fun command => ?_, fun _ _ => read?_congr, fun session commands => ?_, ?_⟩
  · cases hread : read? command with
    | none =>
      refine .inl ⟨rfl, refused_of_read? hread, fun session => ?_⟩
      rw [setOption_eq, hread]
      rfl
    | some assignment =>
      refine .inr ⟨assignment, rfl, writes_of_read? hread, fun session => ?_⟩
      rw [setOption_eq, hread]
      rfl
  · exact ⟨_, session.afterCommands_eq commands, held_assigned _ _⟩
  · intro session first second a b hfirst hsecond
    simp only [afterCommands_eq, List.filterMap_cons, hfirst, hsecond, List.filterMap_nil]
    refine ⟨?_, fun hother => ?_, fun hsame => ?_⟩
    · rw [assigned_of_setting_eq rfl]
    · rw [assigned_comm hother]
    · rw [assigned_of_setting_eq hsame]

/-- The same command with other blanks and in capitals, and one that overrides it. -/
theorem afterCommands_last_accepted_angle :
    let commands := ["angle deg", "colour on", "\tAngle  DEG ", "angle 3"]
    (∀ name value, HasParts "angle deg" name value ↔ HasParts "\tAngle  DEG " name value) ∧
      read? "angle deg" = read? "\tAngle  DEG " ∧
      read? "angle deg" = some (.angleUnit .degrees) ∧
      read? "angle 3" = some (.angleUnit .gradians) ∧
      (∀ session : Session Unit, session.afterCommands ["angle deg", "angle 3"] =
        session.afterCommands ["angle 3"]) ∧
      ∀ session : Session Unit, ∃ settings : Settings,
        session.afterCommands commands = { session with settings } ∧
          settings.held .angleUnit = .angleUnit .gradians := by
  intro commands
  have hfirst : splitAtLastBlank (normalizedCommand "angle deg") =
      some ("angle".toList, "deg".toList) := by
    decide +kernel
  have hsecond : splitAtLastBlank (normalizedCommand "\tAngle  DEG ") =
      some ("angle ".toList, "deg".toList) := by
    decide +kernel
  have htrimmed : String.ofList (Text.trimmed "angle ".toList) =
      String.ofList (Text.trimmed "angle".toList) := by
    decide +kernel
  have hparts : ∀ name value,
      HasParts "angle deg" name value ↔ HasParts "\tAngle  DEG " name value := by
    intro name value
    simp only [hasParts_iff, hfirst, hsecond, Option.some.injEq, Prod.mk.injEq, and_assoc,
      exists_and_left, exists_eq_left', htrimmed]
  have hdegrees : read? "angle deg" = some (.angleUnit .degrees) := by decide +kernel
  have hgradians : read? "angle 3" = some (.angleUnit .gradians) := by decide +kernel
  have hlast : lastTo? .angleUnit (commands.filterMap read?) = some (.angleUnit .gradians) := by
    decide +kernel
  obtain ⟨-, hread, hrun, hpair⟩ := afterCommands_last_accepted (σ := Unit)
  refine ⟨hparts, hread _ _ hparts, hdegrees, hgradians, fun session => ?_, fun session => ?_⟩
  · exact (hpair session _ _ _ _ hdegrees hgradians).2.2 rfl
  · obtain ⟨settings, hafter, hheld⟩ := hrun session commands
    refine ⟨settings, hafter, ?_⟩
    rw [hheld, hlast]
    rfl

end Session

end Reckoner
