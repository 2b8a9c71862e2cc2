import Reckoner.Plot
import Reckoner.Proofs.Decimal.PlainText
import Reckoner.Proofs.Decimal.Rounded

/-!
# The text of a series reads back

A series is written with a line for each point and a blank between its two coordinates. This file
reads such a text again, with a reader that knows nothing of how numbers are written: it splits the
text at its line ends and each line at its blanks, and takes number literals behind at most one
sign. Whatever the number of points is, none at all included, it finds the points that were written,
each coordinate with its sign and to the last bit.
-/

namespace Reckoner

/-! ## Numbers -/

namespace Decimal

open Binary64 Token

/-- Reads a text that is a number literal and nothing else. -/
def readMagnitude? (text : List Char) : Option Float :=
  match splitNumber text with
  | (literal, []) => if literal.hasDigits then some literal.decimal.toFloat else none
  | _ => none

/-- Reads a text that is a number literal, perhaps behind a sign. -/
def readNumber? : List Char → Option Float
  | '-' :: text => (readMagnitude? text).map Neg.neg
  | '+' :: text => readMagnitude? text
  | text => readMagnitude? text

variable {x : Float} {text : List Char}

/-- What a text is read as by the reader of expressions, if that leaves nothing, it is read as. -/
theorem readMagnitude?_of_number (hnumber : Expr.Parser.number text = .ok (.number x, [])) :
    readMagnitude? text = some x := by
  unfold Expr.Parser.number at hnumber
  unfold readMagnitude?
  cases hsplit : splitNumber text with
  | mk literal rest =>
    rw [hsplit] at hnumber
    dsimp only at hnumber
    split at hnumber
    · next hdigits =>
      obtain ⟨hvalue, rfl⟩ := Prod.mk.inj (Except.ok.inj hnumber)
      obtain rfl := Expr.number.inj hvalue
      exact if_pos hdigits
    · cases hexponent : literal.exponent <;> rw [hexponent] at hnumber <;> cases hnumber

/-- A text that begins with a digit is read without a sign. -/
theorem readNumber?_of_begins {c : Char} {rest : List Char} (htext : text = c :: rest)
    (hc : c.isDigit = true) : readNumber? text = readMagnitude? text := by
  subst htext
  unfold readNumber?
  split
  · next heq =>
    obtain ⟨rfl, -⟩ := List.cons.inj heq
    exact absurd hc (by decide)
  · next heq =>
    obtain ⟨rfl, -⟩ := List.cons.inj heq
    exact absurd hc (by decide)
  · rfl

/-- The text of a finite double without a sign is read as the double. -/
theorem readMagnitude?_plain {m : Nat} {e : ℤ} (hx : ofFloat x = .finite false m e) :
    readMagnitude? (plain x) = some x := by
  have hnumber : Expr.Parser.number (plain x ++ []) = .ok (.number x, []) := number_plain hx trivial
  rw [List.append_nil] at hnumber
  exact readMagnitude?_of_number hnumber

/-- The text of a finite double is read as the double, zeros with their signs. -/
theorem readNumber?_plain (hx : x.isFinite = true) : readNumber? (plain x) = some x := by
  obtain ⟨negative, m, e, hread⟩ := isFinite_iff.mp hx
  cases negative with
  | false =>
    obtain ⟨c, rest, htext, hc⟩ := plain_begins hread
    rw [readNumber?_of_begins htext hc, readMagnitude?_plain hread]
  | true =>
    have hopposite : ofFloat (-x) = .finite false m e := ofFloat_neg hread
    have hsigned : plain x = '-' :: plain (-x) := by
      unfold plain
      rw [hread, hopposite]
      rfl
    rw [hsigned]
    show (readMagnitude? (plain (-x))).map Neg.neg = some x
    rw [readMagnitude?_plain hopposite, Option.map_some, neg_neg_of_isFinite hx]

/-- No blank and no line end is in the text of a number. -/
theorem not_mem_plain {c : Char} (hdigit : c.isDigit = false) (hmarks : c ∉ plainMarks) (x : Float) :
    c ∉ plain x := by
  intro hmem
  refine forall_mem_plain (p := fun d => d ≠ c) ?_ ?_ x c hmem rfl
  · rintro d hd rfl
    cases hd.symm.trans hdigit
  · rintro d hd rfl
    exact hmarks hd

end Decimal

/-! ## Points and series -/

namespace PlotPayload

open Decimal

/-- Reads a line as the point with the two coordinates that a blank parts. -/
def readPoint? (line : List Char) : Option (Float × Float) :=
  match line.splitOn ' ' with
  | [x, y] => do return (← readNumber? x, ← readNumber? y)
  | _ => none

/-- Reads a text as one point from each line. A text without characters has no lines. -/
def readSeries? (text : String) : Option (List (Float × Float)) :=
  if text.isEmpty then some [] else (text.toList.splitOn '\n').mapM readPoint?

/-- The line of a point. -/
def pointLine (point : Float × Float) : List Char :=
  plain point.1 ++ ' ' :: plain point.2

variable {point : Float × Float} {points : List (Float × Float)}

/-- The text of a series is its lines with line ends between them. -/
theorem toList_seriesText (points : List (Float × Float)) :
    (seriesText points).toList = ['\n'].intercalate (points.map pointLine) := by
  have hline (point : Float × Float) :
      (plainText point.1 ++ " " ++ plainText point.2).toList = pointLine point := by
    simp [plainText, pointLine]
  rw [seriesText, String.toList_intercalate, List.map_map]
  exact congrArg _ (List.map_congr_left fun point _ => hline point)

/-- No line end is within a line. -/
theorem not_mem_pointLine (point : Float × Float) : '\n' ∉ pointLine point := by
  have hnumber := not_mem_plain (c := '\n') (by decide) (by decide)
  unfold pointLine
  rw [List.mem_append, List.mem_cons]
  rintro (hx | hbetween | hy)
  · exact hnumber _ hx
  · cases hbetween
  · exact hnumber _ hy

/-- The lines of a text are those of its points, if there are any. -/
theorem splitOn_seriesText (hpoints : points ≠ []) :
    (seriesText points).toList.splitOn '\n' = points.map pointLine := by
  rw [toList_seriesText]
  refine List.splitOn_intercalate _ ?_ (mt List.map_eq_nil_iff.mp hpoints)
  exact List.forall_mem_map.mpr fun point _ => not_mem_pointLine point

/-- The text of a series is empty only if there are no points. -/
theorem isEmpty_seriesText (hpoints : points ≠ []) : (seriesText points).isEmpty = false := by
  obtain ⟨first, others, rfl⟩ := List.exists_cons_of_ne_nil hpoints
  rw [Bool.eq_false_iff]
  intro hempty
  have hlines := splitOn_seriesText hpoints
  rw [String.isEmpty_iff.mp hempty, List.map_cons] at hlines
  have hline : [] = pointLine first := (List.cons.inj hlines).1
  simp [pointLine] at hline

/-- The line of a point with finite coordinates is read as the point. -/
theorem readPoint?_pointLine (hx : point.1.isFinite = true) (hy : point.2.isFinite = true) :
    readPoint? (pointLine point) = some point := by
  have hnumber := not_mem_plain (c := ' ') (by decide) (by decide)
  have hsplit : (pointLine point).splitOn ' ' = [plain point.1, plain point.2] := by
    rw [pointLine, List.splitOn_append_cons_self_of_not_mem (hnumber _),
      List.splitOn_eq_singleton (hnumber _)]
  unfold readPoint?
  rw [hsplit]
  dsimp only
  rw [readNumber?_plain hx, readNumber?_plain hy]
  rfl

/-- The lines of points with finite coordinates are read as the points. -/
theorem mapM_readPoint?
    (hfinite : ∀ point ∈ points, point.1.isFinite = true ∧ point.2.isFinite = true) :
    (points.map pointLine).mapM readPoint? = some points := by
  induction points with
  | nil => rfl
  | cons first others ih =>
    obtain ⟨⟨hx, hy⟩, hothers⟩ := List.forall_mem_cons.mp hfinite
    rw [List.map_cons, List.mapM_cons, readPoint?_pointLine hx hy, ih hothers]
    rfl

/-- The text of any number of points with finite coordinates is read as these points in their
order. The doubles that are read are the ones that were written: zeros keep their signs. -/
theorem readSeries?_seriesText
    (hfinite : ∀ point ∈ points, point.1.isFinite = true ∧ point.2.isFinite = true) :
    readSeries? (seriesText points) = some points := by
  unfold readSeries?
  rcases eq_or_ne points [] with rfl | hpoints
  · rfl
  · rw [isEmpty_seriesText hpoints, if_neg Bool.false_ne_true, splitOn_seriesText hpoints,
      mapM_readPoint? hfinite]

/-- Two points, the first with a zero that is below zero. -/
theorem readSeries?_seriesText_zero :
    let points : List (Float × Float) := [(-0.0, 0.1), (1e21, -2.5)]
    (∀ point ∈ points, point.1.isFinite = true ∧ point.2.isFinite = true) ∧
      (-0.0 : Float).toBits ≠ (0.0 : Float).toBits ∧
      seriesText points = "-0 0.1\n1000000000000000000000 -2.5" ∧
      readSeries? (seriesText points) = some points := by
  intro points
  have hfinite : ∀ point ∈ points, point.1.isFinite = true ∧ point.2.isFinite = true := by
    decide +kernel
  exact ⟨hfinite, by decide +kernel, by decide +kernel, readSeries?_seriesText hfinite⟩

end PlotPayload

end Reckoner
