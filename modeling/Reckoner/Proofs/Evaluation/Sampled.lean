import Reckoner.Proofs.Binary64.Operations
import Reckoner.Proofs.Evaluation.Congruence
import Reckoner.StandardEngine.Definitions

/-!
# The points of a plot

A plot samples an expression at equal steps, and leaves out what has no finite value there. The
places are computed with a difference, a quotient, a product and a sum of doubles. This file proves
that they never go down, and that all of them are finite if the last one is; between bounds of at
most `2 ^ 1022` it is.
-/

namespace Reckoner

open Binary64

namespace Plot

/-- How many steps a plot takes. -/
def stepCount (steps : Float) : Nat :=
  (ofFloat steps).wholePart

/-- The width of a step. -/
def stepWidth (lower upper steps : Float) : Float :=
  (upper - lower) / Float.ofNat (stepCount steps)

/-- The place of a sample. -/
def abscissa (lower upper steps : Float) (i : Nat) : Float :=
  lower + Float.ofNat i * stepWidth lower upper steps

/-- What a plot accepts: finite bounds in order, and steps that a double counts one by one. -/
structure Accepts (lower upper steps : Float) : Prop where
  lower_finite : lower.isFinite = true
  upper_finite : upper.isFinite = true
  steps_finite : steps.isFinite = true
  lower_lt : lower < upper
  one_le : 1.0 ≤ steps
  steps_lt : toRat steps < 2 ^ 53

variable {lower upper steps : Float}

/-! ## Steps -/

/-- There is a step, and a double counts all of them. -/
theorem Accepts.stepCount_spec (h : Accepts lower upper steps) :
    1 ≤ stepCount steps ∧ stepCount steps ≤ 2 ^ 53 ∧ (stepCount steps : ℤ) = ⌊toRat steps⌋ := by
  have hone : 1 ≤ toRat steps := by
    have hle := (le_iff isFinite_one h.steps_finite).mp h.one_le
    rwa [toRat_one] at hle
  have hfloor : (stepCount steps : ℤ) = ⌊toRat steps⌋ := by
    have hwhole := wholePart_eq h.steps_finite
    rwa [abs_of_nonneg (zero_le_one.trans hone)] at hwhole
  have hlow : (1 : ℤ) ≤ ⌊toRat steps⌋ := Int.le_floor.mpr (by exact_mod_cast hone)
  have hhigh : ⌊toRat steps⌋ < 2 ^ 53 := Int.floor_lt.mpr (by exact_mod_cast h.steps_lt)
  omega

/-- The width is the rounded quotient of the rounded difference, unless one of them is too large. -/
theorem Accepts.toRat_stepWidth (h : Accepts lower upper steps)
    (hwidth : (stepWidth lower upper steps).isFinite = true) :
    toRat (stepWidth lower upper steps) =
      rounded (rounded (toRat upper - toRat lower) / stepCount steps) := by
  obtain ⟨hone, hmax, -⟩ := h.stepCount_spec
  obtain ⟨hcount, hvalue⟩ := toRat_ofNat hmax
  have hdifference := isFinite_of_isFinite_div hwidth
  have hne : toRat (Float.ofNat (stepCount steps)) ≠ 0 := by
    rw [hvalue]
    exact_mod_cast (by omega : stepCount steps ≠ 0)
  rw [stepWidth, (isRounded_div hdifference hcount hne).toRat_eq hwidth, hvalue,
    (isRounded_sub h.upper_finite h.lower_finite).toRat_eq hdifference]

/-- A width is not negative. -/
theorem Accepts.stepWidth_nonneg (h : Accepts lower upper steps)
    (hwidth : (stepWidth lower upper steps).isFinite = true) :
    0 ≤ toRat (stepWidth lower upper steps) := by
  have hlt := (lt_iff h.lower_finite h.upper_finite).mp h.lower_lt
  rw [h.toRat_stepWidth hwidth]
  have hdifference := rounded_nonneg (sub_nonneg.mpr hlt.le)
  exact rounded_nonneg (by positivity)

/-! ## Places -/

/-- A place is finite, with the number that it should have, if a later place is finite. -/
theorem Accepts.toRat_abscissa (h : Accepts lower upper steps) {i last : Nat} (hle : i ≤ last)
    (hlast : last ≤ 2 ^ 53) (hfinite : (abscissa lower upper steps last).isFinite = true) :
    (abscissa lower upper steps i).isFinite = true ∧ toRat (abscissa lower upper steps i) =
      rounded (toRat lower + rounded (i * toRat (stepWidth lower upper steps))) := by
  obtain ⟨-, hproduct⟩ := isFinite_of_isFinite_add hfinite
  obtain ⟨-, hwidth⟩ := isFinite_of_isFinite_mul hproduct
  have hnonneg := h.stepWidth_nonneg hwidth
  obtain ⟨hnumber, hnumbervalue⟩ := toRat_ofNat (hle.trans hlast)
  obtain ⟨hnumber', hnumbervalue'⟩ := toRat_ofNat hlast
  -- The product lies between zero and the later one.
  have hmul := isRounded_mul hnumber hwidth
  have hmul' := isRounded_mul hnumber' hwidth
  rw [hnumbervalue] at hmul
  rw [hnumbervalue'] at hmul'
  have hcast : (i : ℚ) ≤ last := by exact_mod_cast hle
  have hproductle := rounded_mono (mul_le_mul_of_nonneg_right hcast hnonneg)
  have hproductnonneg : 0 ≤ rounded (i * toRat (stepWidth lower upper steps)) :=
    rounded_nonneg (by positivity)
  have hproductfinite : (Float.ofNat i * stepWidth lower upper steps).isFinite = true := by
    rw [hmul.isFinite_iff, abs_of_nonneg hproductnonneg]
    refine hproductle.trans_lt ?_
    rw [← hmul'.toRat_eq hproduct]
    exact (le_abs_self _).trans_lt (abs_toRat_lt _)
  -- The sum lies between the lower bound and the later one.
  have hadd := isRounded_add h.lower_finite hproductfinite
  have hadd' := isRounded_add h.lower_finite hproduct
  rw [hmul.toRat_eq hproductfinite] at hadd
  rw [hmul'.toRat_eq hproduct] at hadd'
  have hsumge : toRat lower ≤
      rounded (toRat lower + rounded (i * toRat (stepWidth lower upper steps))) :=
    (isShort_toRat lower).le_rounded (by linarith)
  have hsumle := rounded_mono (add_le_add_right hproductle (toRat lower))
  have hsumfinite : (abscissa lower upper steps i).isFinite = true := by
    refine hadd.isFinite_iff.mpr (abs_lt.mpr ⟨?_, ?_⟩)
    · exact (abs_lt.mp (abs_toRat_lt lower)).1.trans_le hsumge
    · refine hsumle.trans_lt ?_
      rw [← hadd'.toRat_eq hfinite]
      exact (le_abs_self _).trans_lt (abs_toRat_lt _)
  exact ⟨hsumfinite, hadd.toRat_eq hsumfinite⟩

/-- Places do not go down. -/
theorem Accepts.abscissa_le_abscissa (h : Accepts lower upper steps) {i j last : Nat} (hij : i ≤ j)
    (hle : j ≤ last) (hlast : last ≤ 2 ^ 53)
    (hfinite : (abscissa lower upper steps last).isFinite = true) :
    abscissa lower upper steps i ≤ abscissa lower upper steps j := by
  obtain ⟨-, hproduct⟩ := isFinite_of_isFinite_add hfinite
  have hnonneg := h.stepWidth_nonneg (isFinite_of_isFinite_mul hproduct).2
  obtain ⟨hi, hvalue⟩ := h.toRat_abscissa (hij.trans hle) hlast hfinite
  obtain ⟨hj, hvalue'⟩ := h.toRat_abscissa hle hlast hfinite
  have hcast : (i : ℚ) ≤ j := by exact_mod_cast hij
  rw [le_iff hi hj, hvalue, hvalue']
  exact rounded_mono (add_le_add_right
    (rounded_mono (mul_le_mul_of_nonneg_right hcast hnonneg)) (toRat lower))

/-- No place is below the lower bound. -/
theorem Accepts.lower_le_abscissa (h : Accepts lower upper steps) {i last : Nat} (hle : i ≤ last)
    (hlast : last ≤ 2 ^ 53) (hfinite : (abscissa lower upper steps last).isFinite = true) :
    lower ≤ abscissa lower upper steps i := by
  obtain ⟨-, hproduct⟩ := isFinite_of_isFinite_add hfinite
  have hnonneg := h.stepWidth_nonneg (isFinite_of_isFinite_mul hproduct).2
  obtain ⟨hi, hvalue⟩ := h.toRat_abscissa hle hlast hfinite
  have hproductnonneg : 0 ≤ rounded (i * toRat (stepWidth lower upper steps)) :=
    rounded_nonneg (by positivity)
  rw [le_iff h.lower_finite hi, hvalue]
  exact (isShort_toRat lower).le_rounded (by linarith)

/-- So many times a rounded share is little more than the whole. -/
theorem mul_rounded_div_le {count whole : ℚ} (hone : 1 ≤ count) (hmax : count ≤ 2 ^ 53)
    (hwhole : 0 ≤ whole) :
    count * rounded (whole / count) ≤ whole + whole / 2 ^ 53 + 2 ^ 53 * 2 ^ (-1075 : ℤ) := by
  have hpos : 0 < count := zero_lt_one.trans_le hone
  have hquotient : count * (whole / count) = whole := by field_simp
  have herror := (abs_le.mp (abs_rounded_sub_le_add (whole / count))).2
  rw [abs_of_nonneg (by positivity)] at herror
  have hleast : (0 : ℚ) < 2 ^ (-1075 : ℤ) := by positivity
  generalize (2 : ℚ) ^ (-1075 : ℤ) = least at *
  calc count * rounded (whole / count)
      ≤ count * (whole / count + whole / count / 2 ^ 53 + least) := by
        gcongr
        linarith
    _ = whole + whole / 2 ^ 53 + count * least := by
        linear_combination (1 + 1 / 2 ^ 53) * hquotient
    _ ≤ whole + whole / 2 ^ 53 + 2 ^ 53 * least := by gcongr

/-- Between bounds of at most `2 ^ 1022` the width is finite: the difference of the bounds is at
most `2 ^ 1023`, and rounding adds little to all steps together. -/
theorem Accepts.isFinite_stepWidth (h : Accepts lower upper steps)
    (hlower : |toRat lower| ≤ 2 ^ 51 * 2 ^ (971 : ℤ))
    (hupper : |toRat upper| ≤ 2 ^ 51 * 2 ^ (971 : ℤ)) :
    (stepWidth lower upper steps).isFinite = true ∧
      |stepCount steps * toRat (stepWidth lower upper steps)| ≤
        (2 ^ 52 + 1 : ℕ) * 2 ^ (971 : ℤ) := by
  obtain ⟨hone, hmax, -⟩ := h.stepCount_spec
  obtain ⟨hcount, hcountvalue⟩ := toRat_ofNat hmax
  have hlt := (lt_iff h.lower_finite h.upper_finite).mp h.lower_lt
  have hone' : (1 : ℚ) ≤ stepCount steps := by exact_mod_cast hone
  have hmax' : (stepCount steps : ℚ) ≤ 2 ^ 53 := by exact_mod_cast hmax
  have hbounds : |toRat upper - toRat lower| ≤ (2 ^ 52 : ℕ) * 2 ^ (971 : ℤ) := by
    have htriangle := abs_sub (toRat upper) (toRat lower)
    generalize (2 : ℚ) ^ (971 : ℤ) = unit at *
    push_cast
    linarith
  have hsub := isRounded_sub h.upper_finite h.lower_finite
  obtain ⟨hfinite, hvalue, hdifference⟩ := hsub.of_abs_le_units (by norm_num) hbounds
  have hnonneg := rounded_nonneg (sub_nonneg.mpr hlt.le)
  have hdiv := isRounded_div hfinite hcount (by rw [hcountvalue]; positivity)
  rw [hcountvalue, hvalue] at hdiv
  rw [abs_of_nonneg hnonneg] at hdifference
  generalize rounded (toRat upper - toRat lower) = difference at *
  have hshare : |difference / stepCount steps| ≤ (2 ^ 52 : ℕ) * 2 ^ (971 : ℤ) := by
    rw [abs_of_nonneg (by positivity)]
    exact (div_le_self hnonneg hone').trans hdifference
  obtain ⟨hwidth, hwidthvalue, -⟩ := hdiv.of_abs_le_units (by norm_num) hshare
  refine ⟨hwidth, ?_⟩
  rw [abs_of_nonneg (mul_nonneg (Nat.cast_nonneg _) (h.stepWidth_nonneg hwidth))]
  have htotal := mul_rounded_div_le hone' hmax' hnonneg
  have hleast : (2 : ℚ) ^ 53 * 2 ^ (-1075 : ℤ) ≤ 2 ^ (971 : ℤ) / 2 := by
    rw [← zpow_natCast, ← zpow_add₀ two_ne_zero, le_div_iff₀ two_pos, ← zpow_add_one₀ two_ne_zero]
    exact zpow_le_zpow_right₀ one_le_two (by norm_num)
  rw [stepWidth, hwidthvalue]
  generalize (2 : ℚ) ^ (971 : ℤ) = unit at *
  push_cast at hdifference ⊢
  linarith

/-- Between bounds of at most `2 ^ 1022` the last place is finite. -/
theorem Accepts.isFinite_abscissa (h : Accepts lower upper steps)
    (hlower : |toRat lower| ≤ 2 ^ 1022) (hupper : |toRat upper| ≤ 2 ^ 1022) :
    (abscissa lower upper steps (stepCount steps)).isFinite = true := by
  obtain ⟨-, hmax, -⟩ := h.stepCount_spec
  obtain ⟨hcount, hcountvalue⟩ := toRat_ofNat hmax
  have hunits : (2 : ℚ) ^ 1022 = 2 ^ 51 * 2 ^ (971 : ℤ) := by
    rw [show (971 : ℤ) = ((971 : ℕ) : ℤ) from rfl, zpow_natCast, ← pow_add]
  rw [hunits] at hlower hupper
  obtain ⟨hwidth, htotal⟩ := h.isFinite_stepWidth hlower hupper
  have hmul := isRounded_mul hcount hwidth
  rw [hcountvalue] at hmul
  obtain ⟨hfinite, hvalue, hproduct⟩ := hmul.of_abs_le_units (by norm_num) htotal
  have hadd := isRounded_add h.lower_finite hfinite
  rw [hvalue] at hadd
  refine (hadd.of_abs_le_units (n := 2 ^ 52 + 2 ^ 51 + 1) (by norm_num) ?_).1
  have htriangle := abs_add_le (toRat lower)
    (rounded (stepCount steps * toRat (stepWidth lower upper steps)))
  generalize (2 : ℚ) ^ (971 : ℤ) = unit at *
  push_cast at hproduct ⊢
  linarith

/-! ## Points -/

/-- The points of a plot: their places are those of some of the samples, in order, and their
ordinates are finite. -/
structure Samples (lower upper steps : Float) (points : List (Float × Float)) : Prop where
  places : (points.map Prod.fst).Sublist
    ((List.range (stepCount steps + 1)).map (abscissa lower upper steps))
  ordinates : ∀ point ∈ points, point.2.isFinite = true

/-- What is to be expected of the points of a plot. -/
structure Plotted (lower upper steps : Float) (points : List (Float × Float)) : Prop where
  ordinate_finite : ∀ point ∈ points, point.2.isFinite = true
  length_le : (points.length : ℤ) ≤ ⌊toRat steps⌋ + 1
  abscissa_finite : (abscissa lower upper steps (stepCount steps)).isFinite = true →
    ∀ point ∈ points, point.1.isFinite = true ∧ lower ≤ point.1
  ascending : (abscissa lower upper steps (stepCount steps)).isFinite = true →
    points.Pairwise fun point next => point.1 ≤ next.1

/-- Samples at the computed places are as expected. -/
theorem Accepts.plotted (h : Accepts lower upper steps) {points : List (Float × Float)}
    (hpoints : Samples lower upper steps points) : Plotted lower upper steps points := by
  obtain ⟨-, hmax, hfloor⟩ := h.stepCount_spec
  refine ⟨hpoints.ordinates, ?_, fun hlast point hpoint => ?_, fun hlast => ?_⟩
  · have hlength := hpoints.places.length_le
    rw [List.length_map, List.length_map, List.length_range] at hlength
    omega
  · have hplace := hpoints.places.subset (List.mem_map_of_mem hpoint)
    obtain ⟨i, hi, heq⟩ := List.mem_map.mp hplace
    have hle : i ≤ stepCount steps := Nat.lt_succ_iff.mp (List.mem_range.mp hi)
    rw [← heq]
    exact ⟨(h.toRat_abscissa hle hmax hlast).1, h.lower_le_abscissa hle hmax hlast⟩
  · have hplaces : ((List.range (stepCount steps + 1)).map (abscissa lower upper steps)).Pairwise
        (· ≤ ·) := by
      rw [List.pairwise_map]
      refine List.pairwise_lt_range.imp_of_mem fun {i j} hi hj hlt => ?_
      exact h.abscissa_le_abscissa hlt.le (Nat.lt_succ_iff.mp (List.mem_range.mp hj)) hmax hlast
    exact List.pairwise_map.mp (hplaces.sublist hpoints.places)

end Plot

namespace Scope

open Evaluation Plot

variable {scope : Scope} {sample : Evaluation Quantity} {lower upper steps : Float}

/-- Sampling adds points at the places of the samples, and nothing but finite ordinates. -/
theorem yields_samplePoints (start width : Float) (count i : Nat) (points : List (Float × Float)) :
    (scope.samplePoints sample start width count i points).Yields fun found =>
      ∃ added, found = points.reverse ++ added ∧
        (added.map Prod.fst).Sublist
          ((List.range' i count).map fun j => start + Float.ofNat j * width) ∧
        ∀ point ∈ added, point.2.isFinite = true := by
  induction count generalizing i points with
  | zero => exact .pure ⟨[], (List.append_nil _).symm, List.Sublist.refl _, nofun⟩
  | succ count ih =>
    refine .after fun _ => .after fun y => ?_
    intro before found after hrun
    obtain ⟨added, hfound, hplaces, hordinates⟩ := ih _ _ hrun
    rw [List.range'_succ, List.map_cons]
    split at hfound
    · next hfinite =>
      refine ⟨(start + Float.ofNat i * width, y.value) :: added, ?_, hplaces.cons_cons _, ?_⟩
      · rw [hfound, List.reverse_cons, List.append_assoc, List.singleton_append]
      · exact List.forall_mem_cons.mpr ⟨(Bool.and_eq_true_iff.mp hfinite).1, hordinates⟩
    · exact ⟨added, hfound, hplaces.cons _, hordinates⟩

/-- An evaluation ended with a fault as its newest message. -/
def EndsWithFault (q : Quantity) (after : Run) : Prop :=
  q = .undefined ∧ ∃ fault : EvaluationFault, ∃ earlier,
    after.messages = ⟨.error, fault.message⟩ :: earlier

theorem endsWithFault_of_fail {fault : EvaluationFault} {before after : Run} {q : Quantity}
    (hrun : (fail fault).run before = (.ok q, after)) : EndsWithFault q after := by
  obtain ⟨hq, rfl⟩ := Prod.mk.inj hrun
  exact ⟨(Except.ok.inj hq).symm, fault, before.messages, rfl⟩

/-- An evaluation has left a plot: its bounds are finite and in order, and its points are as
expected. The last place is finite at least between bounds of at most `2 ^ 1022`. -/
structure LeavesPlot (lower upper steps : Float) (points : List (Float × Float)) (q : Quantity)
    (after : Run) : Prop where
  value : q = .number 1.0
  accepted : Accepts lower upper steps
  series : ∃ payload, after.plot.payload? = some payload ∧
    payload.data.entries = [("1", PlotPayload.seriesText points)]
  plotted : Plotted lower upper steps points
  last_finite : |toRat lower| ≤ 2 ^ 1022 → |toRat upper| ≤ 2 ^ 1022 →
    (abscissa lower upper steps (stepCount steps)).isFinite = true

/-- A plot between two finite bounds that comes to its end has reported that there is no range, or
it leaves its points. -/
theorem plotBetween_eq_ok {body : Expr} (hlower : lower.isFinite = true)
    (hupper : upper.isFinite = true) (hsteps : steps.isFinite = true) {before after : Run}
    {q : Quantity}
    (hrun : (scope.plotBetween body sample lower upper steps).run before = (.ok q, after)) :
    EndsWithFault q after ∨ ∃ points, LeavesPlot lower upper steps points q after := by
  unfold plotBetween at hrun
  split at hrun
  · exact .inl (endsWithFault_of_fail hrun)
  · next hrange =>
    right
    obtain ⟨points, sampled, hpoints, hrest⟩ := run_bind_eq_ok_iff.mp hrun
    rw [Bool.or_eq_true, decide_eq_true_eq, decide_eq_true_eq, le_iff hupper hlower,
      lt_iff hsteps isFinite_one, not_or, not_le, not_lt, ← lt_iff hlower hupper,
      ← le_iff isFinite_one hsteps] at hrange
    split at hrest
    · obtain ⟨v, run, hhalt, -⟩ := run_bind_eq_ok_iff.mp hrest
      cases (Prod.mk.inj hhalt).1
    · next hcount =>
      rw [not_le] at hcount
      obtain ⟨hq, rfl⟩ := Prod.mk.inj hrest
      have haccepts : Accepts lower upper steps := by
        have hfloor : ⌊|toRat steps|⌋ < 2 ^ 53 := by
          rw [← wholePart_eq hsteps]
          exact_mod_cast hcount
        have hless := Int.floor_lt.mp hfloor
        exact ⟨hlower, hupper, hsteps, hrange.1, hrange.2,
          (le_abs_self _).trans_lt (by exact_mod_cast hless)⟩
      rw [if_pos hcount] at hpoints
      obtain ⟨added, rfl, hplaces, hordinates⟩ := yields_samplePoints _ _ _ _ _ hpoints
      rw [← List.range_eq_range'] at hplaces
      exact ⟨points, (Except.ok.inj hq).symm, haccepts, ⟨_, rfl, rfl⟩,
        haccepts.plotted ⟨hplaces, hordinates⟩, haccepts.isFinite_abscissa⟩

/-- The bounds of a plot are finite, one for each argument, or the newest message tells that they
are not. -/
theorem evalBounds_eq_ok {bounds : List Expr} {before after : Run} {values? : Option (List Float)}
    (hrun : (scope.evalBounds bounds).run before = (.ok values?, after)) :
    (values? = none ∧
      ∃ earlier, after.messages = ⟨.error, EvaluationFault.plotBounds.message⟩ :: earlier) ∨
    ∃ values, values? = some values ∧ values.length = bounds.length ∧
      ∀ value ∈ values, value.isFinite = true := by
  induction bounds generalizing before after values? with
  | nil =>
    rw [evalBounds] at hrun
    obtain ⟨hvalues, -⟩ := Prod.mk.inj hrun
    exact .inr ⟨[], (Except.ok.inj hvalues).symm, rfl, List.forall_mem_nil _⟩
  | cons first others ih =>
    rw [evalBounds] at hrun
    obtain ⟨bound, evaluated, -, hrest⟩ := run_bind_eq_ok_iff.mp hrun
    split at hrest
    · obtain ⟨hvalues, rfl⟩ := Prod.mk.inj hrest
      exact .inl ⟨(Except.ok.inj hvalues).symm, evaluated.messages, rfl⟩
    · next haccepted =>
      obtain ⟨others?, collected, hothers, hpure⟩ := run_bind_eq_ok_iff.mp hrest
      obtain ⟨hvalues, rfl⟩ := Prod.mk.inj hpure
      obtain rfl := Except.ok.inj hvalues
      rcases ih hothers with ⟨rfl, hfault⟩ | ⟨values, rfl, hlength, hfinite⟩
      · exact .inl ⟨rfl, hfault⟩
      · refine .inr ⟨bound.value :: values, rfl, congrArg Nat.succ hlength,
          List.forall_mem_cons.mpr ⟨?_, hfinite⟩⟩
        rw [Bool.or_eq_true, not_or, Bool.not_eq_true', Bool.not_eq_false] at haccepted
        exact haccepted.2

/-- Every call of `plot` that comes to its end has reported a fault, or it leaves a plot of its body
between the values of its bounds: all ordinates are finite, and there are at most so many points as
the whole part of the steps, and one. If the last place to be sampled is finite then all places are
finite, none is below the lower bound and none goes down; between bounds of at most `2 ^ 1022` that
is so. -/
theorem eval_plot_sampled {arguments : List Expr} {before after : Run} {q : Quantity}
    (hrun : (scope.eval (.call "plot" arguments)).run before = (.ok q, after)) :
    EndsWithFault q after ∨
      ∃ body bounds values middle lower upper steps points,
        arguments = body :: bounds ∧
        (scope.evalBounds bounds).run { before with ticks := before.ticks + 1 } =
          (.ok (some values), middle) ∧
        (values = [lower, upper] ∧ steps = defaultPlotSteps ∨ values = [lower, upper, steps]) ∧
        LeavesPlot lower upper steps points q after := by
  rw [eval] at hrun
  obtain ⟨_, entered, hclock, hplot⟩ := run_bind_eq_ok_iff.mp hrun
  have hentered : entered = { before with ticks := before.ticks + 1 } := by
    rw [run_checkDeadline] at hclock
    exact (Prod.mk.inj hclock).2.symm
  rw [if_pos rfl, hentered] at hplot
  cases arguments with
  | nil =>
    rw [plot] at hplot
    exact .inl (endsWithFault_of_fail hplot)
  | cons body bounds =>
    rw [plot] at hplot
    split at hplot
    · next hcount =>
      obtain ⟨values?, middle, hbounds, hbetween⟩ := run_bind_eq_ok_iff.mp hplot
      rcases evalBounds_eq_ok hbounds with ⟨rfl, earlier, hfault⟩ | ⟨values, rfl, hlength, hfinite⟩
      · obtain ⟨hq, rfl⟩ := Prod.mk.inj hbetween
        exact .inl ⟨(Except.ok.inj hq).symm, .plotBounds, earlier, hfault⟩
      · rw [← hlength] at hcount
        rcases hcount with htwo | hthree
        · obtain ⟨lower, upper, rfl⟩ := List.length_eq_two.mp htwo
          rw [List.forall_mem_cons, List.forall_mem_singleton] at hfinite
          obtain hfault | ⟨points, hleaves⟩ := plotBetween_eq_ok hfinite.1 hfinite.2 rfl hbetween
          · exact .inl hfault
          · exact .inr ⟨body, bounds, _, middle, lower, upper, defaultPlotSteps, points, rfl,
              hbounds, .inl ⟨rfl, rfl⟩, hleaves⟩
        · obtain ⟨lower, upper, steps, rfl⟩ := List.length_eq_three.mp hthree
          rw [List.forall_mem_cons, List.forall_mem_cons, List.forall_mem_singleton] at hfinite
          obtain ⟨hlower, hupper, hsteps⟩ := hfinite
          obtain hfault | ⟨points, hleaves⟩ := plotBetween_eq_ok hlower hupper hsteps hbetween
          · exact .inl hfault
          · exact .inr ⟨body, bounds, _, middle, lower, upper, steps, points, rfl, hbounds,
              .inr rfl, hleaves⟩
    · exact .inl (endsWithFault_of_fail hplot)

/-- The line from zero to one in two steps. -/
theorem eval_plot_sampled_line :
    let scope := StandardEngine.withDefinitions.scope {} (.metered 0 1) 500
    let bounds := [Expr.number 0.0, .number 1.0, .number 2.0]
    let run := (scope.eval (.call "plot" (.name "x" :: bounds))).run {}
    ∃ q after points, run = (.ok q, after) ∧ LeavesPlot 0.0 1.0 2.0 points q after := by
  intro scope bounds run
  have hone : run.1.map (·.value) = .ok 1.0 := by decide +kernel
  have hquiet : run.2.messages = [] := by decide +kernel
  let entered : Run := { ({} : Run) with ticks := ({} : Run).ticks + 1 }
  have hvalues : ((scope.evalBounds bounds).run entered).1 = .ok (some [0.0, 1.0, 2.0]) := by
    decide +kernel
  -- Nothing more is computed from here on.
  clear_value scope
  cases houtcome : run.1 with
  | error halt =>
    rw [houtcome] at hone
    cases hone
  | ok q =>
    have hrun : run = (.ok q, run.2) := Prod.ext houtcome rfl
    rcases eval_plot_sampled hrun with ⟨-, fault, earlier, hfault⟩ |
      ⟨body, others, values, middle, lower, upper, steps, points, harguments, hcollected, hcount,
        hleaves⟩
    · cases hquiet.symm.trans hfault
    · obtain ⟨-, rfl⟩ := List.cons.inj harguments
      rw [show (scope.evalBounds bounds).run entered = _ from hcollected] at hvalues
      obtain rfl := Option.some.inj (Except.ok.inj hvalues)
      rcases hcount with ⟨htwo, -⟩ | hthree
      · cases htwo
      · cases hthree
        exact ⟨q, run.2, points, hrun, hleaves⟩

end Scope

/-- Between bounds that are too far apart the places are not finite. -/
example : (Plot.abscissa (-1e308) 1e308 2.0 0).isNaN = true ∧
    (Plot.abscissa (-1e308) 1e308 2.0 2).isFinite = false := by
  decide +kernel

end Reckoner
