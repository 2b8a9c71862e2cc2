import Reckoner.Decimal.Plain

/-!
# Plots

An expression can plot: it leaves sampled series and the commands that draw them. Series are kept
in ascending order of their names, one under each name. A slot holds the plot of one
evaluation; a second plot replaces the first, and reading leaves the slot as it is.
-/

namespace Reckoner

/-- Puts a series under its name, in place of one of that name. -/
def insertSeries (name points : String) : List (String × String) → List (String × String)
  | [] => [(name, points)]
  | first :: rest =>
      if name < first.1 then (name, points) :: first :: rest
      else if name = first.1 then (name, points) :: rest
      else first :: insertSeries name points rest

/-- What a table holds after a series is put in was in it before, or is that series. -/
theorem mem_insertSeries {name points : String} {entries : List (String × String)}
    {entry : String × String} (hmem : entry ∈ insertSeries name points entries) :
    entry = (name, points) ∨ entry ∈ entries := by
  induction entries with
  | nil => simpa [insertSeries] using hmem
  | cons first rest ih =>
    unfold insertSeries at hmem
    split at hmem
    · simpa using hmem
    · split at hmem
      · grind
      · grind

/-- Putting a series in keeps the names in ascending order. -/
theorem insertSeries_ascending (name points : String) {entries : List (String × String)}
    (hentries : entries.Pairwise fun a b => a.1 < b.1) :
    (insertSeries name points entries).Pairwise fun a b => a.1 < b.1 := by
  induction entries with
  | nil => simp [insertSeries]
  | cons first rest ih =>
    obtain ⟨hfirst, hrest⟩ := List.pairwise_cons.mp hentries
    unfold insertSeries
    split
    · next hlt =>
      refine List.pairwise_cons.mpr ⟨fun entry hentry => ?_, hentries⟩
      rcases List.mem_cons.mp hentry with rfl | hentry
      · exact hlt
      · exact String.lt_trans hlt (hfirst entry hentry)
    · split
      · next heq =>
        exact List.pairwise_cons.mpr ⟨fun entry hentry => heq ▸ hfirst entry hentry, hrest⟩
      · next hnlt hne =>
        refine List.pairwise_cons.mpr ⟨fun entry hentry => ?_, ih hrest⟩
        rcases mem_insertSeries hentry with rfl | hentry
        · grind
        · exact hfirst entry hentry

/-- Series under ascending names. -/
structure SeriesTable where
  entries : List (String × String) := []
  ascending : entries.Pairwise fun a b => a.1 < b.1 := by exact List.Pairwise.nil
deriving DecidableEq

namespace SeriesTable

/-- A table without series. -/
def empty : SeriesTable := {}

instance : Inhabited SeriesTable := ⟨empty⟩

/-- The table with a series put under its name. -/
def insert (table : SeriesTable) (name points : String) : SeriesTable :=
  ⟨insertSeries name points table.entries, insertSeries_ascending name points table.ascending⟩

/-- The table of a list of series, later ones replacing earlier ones. -/
def ofList (series : List (String × String)) : SeriesTable :=
  series.foldl (fun table (name, points) => table.insert name points) empty

end SeriesTable

/-- What one plot leaves. -/
structure PlotPayload where
  data : SeriesTable := .empty
  commands : String
deriving DecidableEq, Inhabited

namespace PlotPayload

/-- The payload with one more series. -/
def withSeries (payload : PlotPayload) (name points : String) : PlotPayload :=
  { payload with data := payload.data.insert name points }

/-- The text of a series: a line for each point, with a blank between its coordinates. -/
def seriesText (points : List (Float × Float)) : String :=
  String.intercalate "\n"
    (points.map fun (x, y) => Decimal.plainText x ++ " " ++ Decimal.plainText y)

end PlotPayload

/-- Room for the plot of one evaluation. -/
structure PlotSlot where
  payload? : Option PlotPayload := none
deriving DecidableEq, Inhabited

namespace PlotSlot

/-- The slot before an evaluation. -/
def empty : PlotSlot := {}

/-- The slot with a plot in it, whatever it held. -/
def put (_ : PlotSlot) (payload : PlotPayload) : PlotSlot :=
  ⟨some payload⟩

end PlotSlot

end Reckoner
