import Reckoner.Settings.Command

/-!
# Assignments to settings

An assignment writes one of ten settings and leaves the others alone. What a setting holds is given
here as the assignment that would write it, so that all ten are compared in one way. From one law
about a single assignment follows what any sequence of them leaves: each setting has the value that
the last assignment to it wrote.
-/

namespace Reckoner

/-- The settings, by their names. -/
inductive Setting where
  | angleUnit
  | unknowns
  | decimalComma
  | unicodeSigns
  | infiniteSeries
  | digitGrouping
  | base
  | baseDisplay
  | exponentDisplay
  | intervalDisplay
deriving DecidableEq

/-- The setting that an assignment writes. -/
def Assignment.setting : Assignment → Setting
  | .angleUnit _ => .angleUnit
  | .unknowns _ => .unknowns
  | .decimalComma _ => .decimalComma
  | .unicodeSigns _ => .unicodeSigns
  | .infiniteSeries _ => .infiniteSeries
  | .digitGrouping _ => .digitGrouping
  | .base _ => .base
  | .baseDisplay _ => .baseDisplay
  | .exponentDisplay _ => .exponentDisplay
  | .intervalDisplay _ => .intervalDisplay

namespace Settings

/-- What a setting holds, as the assignment that gives it that value. -/
def held (settings : Settings) : Setting → Assignment
  | .angleUnit => .angleUnit settings.parse.angleUnit
  | .unknowns => .unknowns settings.parse.unknownsEnabled
  | .decimalComma => .decimalComma settings.parse.decimalComma
  | .unicodeSigns => .unicodeSigns settings.print.useUnicodeSigns
  | .infiniteSeries => .infiniteSeries settings.print.indicateInfiniteSeries
  | .digitGrouping => .digitGrouping settings.print.digitGrouping
  | .base => .base settings.print.base
  | .baseDisplay => .baseDisplay settings.print.baseDisplay
  | .exponentDisplay => .exponentDisplay settings.print.exponentDisplay
  | .intervalDisplay => .intervalDisplay settings.print.intervalDisplay

variable {settings settings' : Settings} {assignment other : Assignment}

/-- Nothing is in the settings besides what the ten hold. -/
theorem eq_of_held_eq (hheld : ∀ setting, settings.held setting = settings'.held setting) :
    settings = settings' := by
  have hangle := Assignment.angleUnit.inj (hheld .angleUnit)
  have hunknowns := Assignment.unknowns.inj (hheld .unknowns)
  have hcomma := Assignment.decimalComma.inj (hheld .decimalComma)
  have hunicode := Assignment.unicodeSigns.inj (hheld .unicodeSigns)
  have hseries := Assignment.infiniteSeries.inj (hheld .infiniteSeries)
  have hgrouping := Assignment.digitGrouping.inj (hheld .digitGrouping)
  have hbase := Assignment.base.inj (hheld .base)
  have hdisplay := Assignment.baseDisplay.inj (hheld .baseDisplay)
  have hexponent := Assignment.exponentDisplay.inj (hheld .exponentDisplay)
  have hinterval := Assignment.intervalDisplay.inj (hheld .intervalDisplay)
  obtain ⟨⟨_, _, _⟩, ⟨_, _, _, _, _, _, _⟩⟩ := settings
  obtain ⟨⟨_, _, _⟩, ⟨_, _, _, _, _, _, _⟩⟩ := settings'
  simp_all

/-- An assignment writes its own setting and no other. -/
theorem held_apply (assignment : Assignment) (settings : Settings) (setting : Setting) :
    (assignment.apply settings).held setting =
      if assignment.setting = setting then assignment else settings.held setting := by
  cases assignment <;> cases setting <;> rfl

/-- The settings after some assignments, one after another. -/
def assigned (settings : Settings) (assignments : List Assignment) : Settings :=
  assignments.foldl (fun s assignment => assignment.apply s) settings

/-- Assignments after others are carried out on what those left. -/
theorem assigned_append (settings : Settings) (front back : List Assignment) :
    settings.assigned (front ++ back) = (settings.assigned front).assigned back :=
  List.foldl_append

/-- The last of some assignments to a setting. -/
def lastTo? (setting : Setting) (assignments : List Assignment) : Option Assignment :=
  (assignments.filter fun assignment => assignment.setting = setting).getLast?

/-- After some assignments each setting holds what the last one to it wrote, or what it held. -/
theorem held_assigned (settings : Settings) (assignments : List Assignment) (setting : Setting) :
    (settings.assigned assignments).held setting =
      (lastTo? setting assignments).getD (settings.held setting) := by
  induction assignments generalizing settings with
  | nil => rfl
  | cons first others ih =>
    have hrest : (settings.assigned (first :: others)).held setting =
        (lastTo? setting others).getD ((first.apply settings).held setting) := ih _
    rw [hrest, held_apply, lastTo?, lastTo?]
    by_cases hfirst : first.setting = setting
    · rw [if_pos hfirst, List.filter_cons_of_pos (by simpa using hfirst), List.getLast?_cons]
      rfl
    · rw [if_neg hfirst, List.filter_cons_of_neg (by simpa using hfirst)]

/-- Sequences of assignments that write each setting last in the same way leave the same. -/
theorem assigned_eq_of_lastTo? {front back : List Assignment}
    (hlast : ∀ setting, lastTo? setting front = lastTo? setting back) (settings : Settings) :
    settings.assigned front = settings.assigned back := by
  refine eq_of_held_eq fun setting => ?_
  rw [held_assigned, held_assigned, hlast]

/-- The last assignment to a setting is one of them. -/
theorem mem_of_lastTo? {setting : Setting} {assignments : List Assignment}
    (hlast : lastTo? setting assignments = some assignment) :
    assignment ∈ assignments ∧ assignment.setting = setting := by
  obtain ⟨hmem, hsetting⟩ := List.mem_filter.mp (List.mem_of_getLast? hlast)
  exact ⟨hmem, by simpa using hsetting⟩

/-- Where some assignment writes a setting, there is a last one to it. -/
theorem exists_lastTo? {setting : Setting} {assignments : List Assignment}
    (hmem : assignment ∈ assignments) (hsetting : assignment.setting = setting) :
    ∃ last, lastTo? setting assignments = some last := by
  have hfiltered : assignment ∈ assignments.filter fun a => a.setting = setting :=
    List.mem_filter.mpr ⟨hmem, by simpa using hsetting⟩
  exact ⟨_, List.getLast?_eq_some_getLast (List.ne_nil_of_mem hfiltered)⟩

/-- Where no setting is written in two ways, neither the order nor the number of the assignments
matters. -/
theorem assigned_eq_of_mem_iff {front back : List Assignment}
    (hsame : ∀ assignment, assignment ∈ front ↔ assignment ∈ back)
    (hone : ∀ a ∈ front, ∀ b ∈ front, a.setting = b.setting → a = b) (settings : Settings) :
    settings.assigned front = settings.assigned back := by
  refine assigned_eq_of_lastTo? (fun setting => ?_) settings
  cases hfront : lastTo? setting front with
  | none =>
    cases hback : lastTo? setting back with
    | none => rfl
    | some last =>
      obtain ⟨hmem, hsetting⟩ := mem_of_lastTo? hback
      obtain ⟨_, hlast⟩ := exists_lastTo? ((hsame last).mpr hmem) hsetting
      cases hfront.symm.trans hlast
  | some last =>
    obtain ⟨hmem, hsetting⟩ := mem_of_lastTo? hfront
    obtain ⟨last', hback⟩ := exists_lastTo? ((hsame last).mp hmem) hsetting
    obtain ⟨hmem', hsetting'⟩ := mem_of_lastTo? hback
    rw [hback, hone last hmem last' ((hsame last').mpr hmem') (hsetting.trans hsetting'.symm)]

/-- Assignments to different settings may change places. -/
theorem assigned_comm {a b : Assignment} (hother : a.setting ≠ b.setting) (settings : Settings) :
    settings.assigned [a, b] = settings.assigned [b, a] := by
  refine assigned_eq_of_mem_iff (fun assignment => ?_) ?_ settings
  · simp [or_comm]
  · simp [hother, hother.symm]

/-- Of two assignments to one setting the later one wins. -/
theorem assigned_of_setting_eq {a b : Assignment} (hsame : a.setting = b.setting)
    (settings : Settings) : settings.assigned [a, b] = settings.assigned [b] := by
  refine assigned_eq_of_lastTo? (fun setting => ?_) settings
  by_cases hsetting : b.setting = setting
  · simp [lastTo?, hsame, hsetting]
  · simp [lastTo?, hsame, hsetting]

end Settings

end Reckoner
