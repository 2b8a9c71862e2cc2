import Reckoner.Interchange.Result
import Reckoner.Proofs.Json.Printed
import Reckoner.Proofs.Json.SameValue

/-!
# Results read back

The result of a call is read back from its value, with the fields in whatever order, and its value
is read back from either of its printed forms, whatever its texts, its diagnostics and its series
are. The field of the plot is there exactly when there is a plot, so that no plot and an empty plot
stay apart; and results are told apart by their values.
-/

namespace Reckoner

open Json

/-! ## Series -/

section series

variable {name points : String} {entries : List (String × String)}

/-- A series under a new name is put in between the others. -/
theorem insertSeries_perm (hname : name ∉ entries.map Prod.fst) :
    (insertSeries name points entries).Perm ((name, points) :: entries) := by
  induction entries with
  | nil => exact .refl _
  | cons first rest ih =>
    rw [List.map_cons, List.mem_cons, not_or] at hname
    unfold insertSeries
    split
    · exact .refl _
    · rw [if_neg hname.1]
      exact ((ih hname.2).cons first).trans (.swap ..)

end series

namespace SeriesTable

variable {table other : SeriesTable} {series : List (String × String)}

/-- A table is determined by its entries in any order. -/
theorem eq_of_perm (hperm : table.entries.Perm other.entries) : table = other := by
  have hentries : table.entries = other.entries :=
    hperm.eq_of_pairwise (fun a b _ _ hab hba => absurd hba (String.lt_asymm hab)) table.ascending
      other.ascending
  cases table
  cases other
  cases hentries
  rfl

/-- The names of a table are different. -/
theorem nodup_names (table : SeriesTable) : (table.entries.map Prod.fst).Nodup :=
  List.pairwise_map.mpr (table.ascending.imp String.ne_of_lt)

/-- Series under different names are all put into a table. -/
theorem foldl_insert_perm (hnodup : ((series ++ table.entries).map Prod.fst).Nodup) :
    (series.foldl (fun table (name, points) => table.insert name points) table).entries.Perm
      (series ++ table.entries) := by
  induction series generalizing table with
  | nil => exact .refl _
  | cons first series ih =>
    have hfirst : first.1 ∉ table.entries.map Prod.fst := by
      rw [List.cons_append, List.map_cons, List.nodup_cons, List.map_append] at hnodup
      exact fun hmem => hnodup.1 (List.mem_append_right _ hmem)
    have hinsert : (series ++ (table.insert first.1 first.2).entries).Perm
        (first :: series ++ table.entries) :=
      ((insertSeries_perm hfirst).append_left series).trans List.perm_middle
    exact (ih ((hinsert.map Prod.fst).nodup_iff.mpr hnodup)).trans hinsert

/-- The table of the entries of a table, in any order, is that table. -/
theorem ofList_of_perm (hperm : series.Perm table.entries) : ofList series = table := by
  have hempty : series ++ empty.entries = series := List.append_nil series
  have hnodup : ((series ++ empty.entries).map Prod.fst).Nodup := by
    rw [hempty]
    exact (hperm.map Prod.fst).nodup_iff.mpr table.nodup_names
  have hall := foldl_insert_perm hnodup
  rw [hempty] at hall
  exact eq_of_perm (hall.trans hperm)

/-- A table is read back, whatever the order of its fields. -/
theorem readsBack : ReadsBack SeriesTable.toJson SeriesTable.ofJson? := by
  intro table json hsame
  have hnodup : ((table.entries.map fun entry => (entry.1, Json.string entry.2)).map
      Prod.fst).Nodup := by
    rw [List.map_map]
    exact table.nodup_names
  obtain ⟨fields, rfl, hfields⟩ := hsame.exists_object hnodup
  obtain ⟨series, rfl, hperm⟩ := hfields.exists_perm_of_strings
  have hseries : series.mapM some = some series := by
    simpa using List.mapM_pure (m := Option) (l := series) (f := id)
  show ((series.map fun entry => (entry.1, Json.string entry.2)).mapM _ >>= _) = some table
  rw [List.mapM_map]
  refine (congrArg (· >>= fun series => some (ofList series)) hseries).trans ?_
  exact congrArg some (ofList_of_perm hperm)

end SeriesTable

/-! ## Results and their parts -/

namespace Severity

theorem readsBack : ReadsBack toJson ofJson? := by
  intro s json hsame
  rw [hsame.eq_string]
  cases s <;> rfl

end Severity

namespace Diagnostic

theorem readsBack : ReadsBack toJson ofJson? := by
  intro d json hsame
  obtain ⟨fields, rfl, hfields⟩ := hsame.exists_object (by simp)
  obtain ⟨_, hrecord, _ | ⟨⟨hseverity⟩, _ | ⟨⟨htext⟩, ⟨⟩⟩⟩⟩ :=
    hfields.exists_record? ["severity", "text"]
  simp only [List.map_cons, List.map_nil] at hrecord
  simp [ofJson?, hrecord, Severity.readsBack _ _ hseverity, htext.eq_string, Json.string?]

end Diagnostic

namespace PlotPayload

theorem readsBack : ReadsBack toJson ofJson? := by
  intro payload json hsame
  obtain ⟨fields, rfl, hfields⟩ := hsame.exists_object (by simp)
  obtain ⟨_, hrecord, _ | ⟨⟨hdata⟩, _ | ⟨⟨hcommands⟩, ⟨⟩⟩⟩⟩ :=
    hfields.exists_record? ["data", "commands"]
  simp only [List.map_cons, List.map_nil] at hrecord
  simp [ofJson?, hrecord, SeriesTable.readsBack _ _ hdata, hcommands.eq_string, Json.string?]

/-- A plot is read back from the field where it may be missing. -/
theorem ofField?_of_rel {plot : Option PlotPayload} {field : Option Json}
    (hsame : Option.Rel SameValue field (plot.map toJson)) : ofField? field = some plot := by
  cases plot with
  | none =>
    cases hsame
    rfl
  | some payload =>
    obtain ⟨hsame⟩ := hsame
    have hread := readsBack payload _ hsame
    -- A plot is written as an object, which the reader does not take for a missing one.
    obtain ⟨fields, rfl, -⟩ := hsame.exists_object (by simp)
    show (ofJson? _).map some = _
    rw [hread]
    rfl

end PlotPayload

namespace CallResult

/-- There is a field for the plot exactly when there is a plot. -/
theorem field?_plot (r : CallResult) : r.toJson.field? "plot" = r.plot.map PlotPayload.toJson := by
  obtain ⟨input, output, messages, plot⟩ := r
  cases plot <;> rfl

/-- A result is read back, with a plot and without one. -/
theorem readsBack : ReadsBack toJson ofJson? := by
  intro r json hsame
  obtain ⟨fields, rfl, hfields⟩ := hsame.exists_object (by cases r.plot <;> simp)
  obtain ⟨_, hrecord, _ | ⟨⟨hinput⟩, _ | ⟨⟨houtput⟩, _ | ⟨⟨hmessages⟩, _ | ⟨hfield, ⟨⟩⟩⟩⟩⟩⟩ :=
    hfields.exists_record? ["input", "output", "messages", "plot"]
  simp only [List.map_cons, List.map_nil] at hrecord
  have hread := Diagnostic.readsBack.list r.messages _ hmessages
  -- The plot alone may be missing, on both sides at once.
  have hplot : Option.Rel SameValue _ (r.toJson.field? "plot") := hfield
  rw [field?_plot] at hplot
  have hplot := PlotPayload.ofField?_of_rel hplot
  simp [ofJson?, hrecord, hinput.eq_string, houtput.eq_string, Json.string?, hread, hplot]

end CallResult

/-! ## The round trip -/

theorem Diagnostic.isNumberless_toJson (d : Diagnostic) : d.toJson.IsNumberless :=
  .object (by simp [Severity.toJson, IsNumberless.string])

theorem SeriesTable.isNumberless_toJson (table : SeriesTable) : table.toJson.IsNumberless := by
  refine .object (List.forall_mem_map.mpr ?_)
  rintro ⟨name, points⟩ -
  exact .string points

theorem PlotPayload.isNumberless_toJson (payload : PlotPayload) : payload.toJson.IsNumberless :=
  .object (by simp [payload.data.isNumberless_toJson, IsNumberless.string])

namespace CallResult

/-- Nothing in a result is written as a number. -/
theorem isNumberless_toJson (r : CallResult) : r.toJson.IsNumberless := by
  have hmessages : (Json.array (r.messages.map Diagnostic.toJson)).IsNumberless :=
    .array (List.forall_mem_map.mpr fun d _ => d.isNumberless_toJson)
  refine .object ?_
  cases hplot : r.plot with
  | none => simp [hmessages, IsNumberless.string]
  | some payload => simp [hmessages, payload.isNumberless_toJson, IsNumberless.string]

/-- A result is read back from its value in either printed form and with the fields in any order.
Its value has a field for the plot exactly when there is a plot, and no other result has that
value. -/
theorem json_roundTrip (r : CallResult) :
    parse? r.toJson.pretty = some r.toJson ∧ parse? r.toJson.compact = some r.toJson ∧
      (∀ json, SameValue json r.toJson → ofJson? json = some r) ∧
      r.toJson.field? "plot" = r.plot.map PlotPayload.toJson ∧
      ∀ other : CallResult, SameValue other.toJson r.toJson → other = r :=
  ⟨parse?_pretty r.isNumberless_toJson, parse?_compact r.isNumberless_toJson, readsBack r,
    r.field?_plot, fun _ => readsBack.eq_of_sameValue⟩

/-- Series may be put in and fields may be written in another order, but an empty plot is not the
lack of a plot. -/
theorem json_roundTrip_reordered :
    let empty : PlotPayload := { commands := "" }
    let plotted (payload : PlotPayload) : CallResult :=
      { input := "plot(x)", output := "", messages := [⟨.warning, "\"x\"\n"⟩],
        plot := some payload }
    let r := plotted ((empty.withSeries "b" "").withSeries "a" "0 1")
    let other := plotted ((empty.withSeries "a" "0 1").withSeries "b" "")
    let json : Json := .object [("output", .string ""), ("input", .string "plot(x)"),
      ("messages", .array
        [.object [("severity", .string "Warning"), ("text", .string "\"x\"\n")]]),
      ("plot", .object
        [("data", .object [("a", .string "0 1"), ("b", .string "")]), ("commands", .string "")])]
    (SameValue json r.toJson ∧ ofJson? json = some r) ∧
      (SameValue other.toJson r.toJson ∧ other = r) ∧
      ¬ SameValue (toJson { plotted empty with plot := none }) (plotted empty).toJson := by
  intro empty plotted r other json
  have hfields : SameValue json r.toJson :=
    SameFields.sameValue (.of_perm (by decide) (.swap ..))
  have hseries : SameValue other.toJson r.toJson := by
    rw [show other.toJson = r.toJson from rfl]
    exact .refl _
  obtain ⟨-, -, hread, -, hunique⟩ := json_roundTrip r
  refine ⟨⟨hfields, hread json hfields⟩, ⟨hseries, hunique other hseries⟩, fun hsame => ?_⟩
  obtain ⟨-, -, -, -, hplotted⟩ := json_roundTrip (plotted empty)
  cases hplotted _ hsame

end CallResult

end Reckoner
