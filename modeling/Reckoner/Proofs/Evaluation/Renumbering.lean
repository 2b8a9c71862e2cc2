import Reckoner.Proofs.Evaluation.Congruence
import Reckoner.Proofs.Units.Lookup

/-!
# Units under other numbers

A unit is known by its place in the table, and this place is a matter of the order in which the
units were added. If the same units are at other places, under the same names, an evaluation takes
the same steps, reports the same messages and gives the same magnitude. Only the places in the
dimension and in the unit to be shown are those of the other table.
-/

namespace Reckoner

variable {number : UnitId → UnitId}

namespace Quantity

/-- A quantity with its units under other numbers. -/
def renumbered (number : UnitId → UnitId) (q : Quantity) : Quantity :=
  { q with dimension := q.dimension.map number, display := q.display.map number }

@[simp] theorem renumbered_number (value : Float) :
    (Quantity.number value).renumbered number = .number value :=
  rfl

@[simp] theorem renumbered_value (q : Quantity) : (q.renumbered number).value = q.value :=
  rfl

@[simp] theorem renumbered_symbolic (q : Quantity) :
    (q.renumbered number).symbolic = q.symbolic :=
  rfl

/-- Merging does not look at units. -/
theorem merged_renumbered (q other : Quantity) :
    (q.renumbered number).merged (other.renumbered number) =
      (q.merged other).renumbered number :=
  rfl

/-- Operators compare units and hand them on, whatever their numbers are. -/
theorem combine_renumbered (hinjective : Function.Injective number) (op : Operator)
    (l r : Quantity) :
    combine op (l.renumbered number) (r.renumbered number) =
      (combine op l r).map (renumbered number) := by
  have hsame : l.dimension.map number = r.dimension.map number ↔ l.dimension = r.dimension :=
    (Option.map_injective hinjective).eq_iff
  have hsum (value : Float) :
      combineSum ((l.merged r).renumbered number) (l.renumbered number) (r.renumbered number)
        value = (combineSum (l.merged r) l r value).map (renumbered number) := by
    unfold combineSum
    simp only [renumbered, hsame, ← Option.map_or]
    split <;> rfl
  unfold combine
  rw [merged_renumbered]
  dsimp only
  rw [renumbered_symbolic]
  split
  · rfl
  · cases op with
    | add | sub => exact hsum _
    | mul | juxtapose =>
      simp only [renumbered, Option.isSome_map, ← Option.map_or]
      split <;> rfl
    | div =>
      simp only [renumbered, hsame]
      split
      · rfl
      · cases r.dimension with
        | none => rfl
        | some unit =>
          simp only [Option.map_some]
          split <;> rfl
    | pow =>
      simp only [renumbered, Option.isSome_map]
      split <;> rfl

end Quantity

/-- A unit whose base is under another number. -/
def UnitEntry.renumbered (number : UnitId → UnitId) (entry : UnitEntry) : UnitEntry :=
  { entry with base := entry.base.map number }

/-- The units of one table are in another one under other numbers, and names stand for the same
units. -/
structure UnitTable.Renumbered (number : UnitId → UnitId) (table table' : UnitTable) : Prop where
  injective : Function.Injective number
  find?_eq : ∀ name, table'.find? name = (table.find? name).map number
  get?_eq : ∀ unit, table'.get? (number unit) = (table.get? unit).map (·.renumbered number)

/-- Bases lead to the same root, by the same factors. -/
theorem UnitTable.Renumbered.toRoot?_eq {table table' : UnitTable}
    (htable : table.Renumbered number table') (unit : UnitId) :
    table'.toRoot? (number unit) = (table.toRoot? unit).map (Prod.map number id) := by
  have hfrom (visits : Nat) (unit : UnitId) (factor : Float) :
      table'.rootFrom visits (number unit) factor =
        (table.rootFrom visits unit factor).map (Prod.map number id) := by
    induction visits generalizing unit factor with
    | zero => rfl
    | succ visits ih =>
      rw [rootFrom, rootFrom, htable.get?_eq]
      cases table.get? unit with
      | none => rfl
      | some entry =>
        simp only [Option.map_some, UnitEntry.renumbered]
        cases entry.base with
        | none => rfl
        | some base =>
          simp only [Option.map_some, ih]
          split <;> rfl
  exact hfrom maxChain unit 1.0

namespace Evaluation

variable {α β : Type}

/-- A change to the value leaves the run alone. -/
theorem run_map (f : α → β) (x : Evaluation α) (a : Run) :
    (f <$> x).run a = ((x.run a).1.map f, (x.run a).2) := by
  rw [map_eq_pure_bind, run_bind]
  obtain ⟨outcome, b⟩ := x.run a
  cases outcome <;> rfl

/-- What is evaluated with `x` bound may be changed before or after. -/
theorem withBinding_map (value : Float) (f : α → β) (x : Evaluation α) :
    withBinding value (f <$> x) = f <$> withBinding value x := by
  refine ExceptT.ext (StateT.ext fun a => ?_)
  show (withBinding value (f <$> x)).run a = (f <$> withBinding value x).run a
  rw [run_withBinding, run_map, run_map, run_withBinding]

/-- The report of a fault mentions no numbers of units. -/
theorem map_fail (fault : EvaluationFault) :
    Quantity.renumbered number <$> fail fault = fail fault := by
  rw [fail, map_bind]
  rfl

/-- A result is handed on, and a fault is reported as it is. -/
theorem ofResult_map (result : Except EvaluationFault Quantity) :
    ofResult (result.map (Quantity.renumbered number)) =
      Quantity.renumbered number <$> ofResult result := by
  cases result with
  | ok q => rfl
  | error fault => exact (map_fail fault).symm

end Evaluation

namespace Scope

open Evaluation

variable (scope : Scope) {table' : UnitTable}

/-- One of a unit has the same magnitude under another number. -/
theorem unitQuantity_renumbered (htable : scope.units.Renumbered number table') (unit : UnitId)
    (name : String) :
    ({ scope with units := table' } : Scope).unitQuantity (number unit) name =
      Quantity.renumbered number <$> scope.unitQuantity unit name := by
  unfold unitQuantity
  simp only [htable.get?_eq, htable.toRoot?_eq]
  cases scope.units.get? unit with
  | none => exact (map_fail _).symm
  | some entry =>
    cases scope.units.toRoot? unit with
    | none => exact (map_fail _).symm
    | some pair =>
      obtain ⟨root, factor⟩ := pair
      have hother : (number root != number unit) = (root != unit) := by
        rw [Bool.eq_iff_iff, bne_iff_ne, bne_iff_ne, htable.injective.ne_iff]
      simp only [Option.map_some, Prod.map_apply, id, map_bind, map_pure, hother]
      rfl

/-- A name that is not bound stands for the same. -/
theorem lookUp_renumbered (htable : scope.units.Renumbered number table') (name : String) :
    ({ scope with units := table' } : Scope).lookUp name =
      Quantity.renumbered number <$> scope.lookUp name := by
  unfold lookUp
  simp only [htable.find?_eq]
  split
  · next v _ => cases hv : v.value <;> rfl
  · cases scope.units.find? name with
    | none =>
      simp only [Option.map_none]
      split
      · rfl
      · exact (map_fail _).symm
    | some unit => exact scope.unitQuantity_renumbered htable unit name

/-- A name stands for the same, with `x` bound or without. -/
theorem identifier_renumbered (htable : scope.units.Renumbered number table') (name : String) :
    ({ scope with units := table' } : Scope).identifier name =
      Quantity.renumbered number <$> scope.identifier name := by
  rw [identifier_eq, identifier_eq, map_bind]
  congr 1
  funext run
  cases (if name == "x" then run.binding else none) with
  | none => exact scope.lookUp_renumbered htable name
  | some x => rfl

/-- A conversion compares dimensions, whose numbers change alike. -/
theorem convert_renumbered (htable : scope.units.Renumbered number table') (q : Quantity)
    (name : String) :
    ({ scope with units := table' } : Scope).convert (q.renumbered number) name =
      Quantity.renumbered number <$> scope.convert q name := by
  have hsame (target : Quantity) :
      (target.renumbered number).dimension = (q.renumbered number).dimension ↔
        target.dimension = q.dimension :=
    (Option.map_injective htable.injective).eq_iff
  unfold convert
  simp only [htable.find?_eq, Quantity.renumbered_symbolic]
  split
  · rfl
  · cases scope.units.find? name with
    | none => exact (map_fail _).symm
    | some unit =>
      simp only [Option.map_some, scope.unitQuantity_renumbered htable, bind_map_left, map_bind,
        Quantity.renumbered_value, hsame]
      congr 1
      funext target
      split
      · rfl
      · split
        · rfl
        · exact (map_fail _).symm

/-- Functions look at magnitudes, and keep the first quantity that is merged in: a plain number. -/
theorem applyFunction_renumbered (f : NumericFunction) (arguments : List Quantity) :
    scope.applyFunction f (arguments.map (Quantity.renumbered number)) =
      (scope.applyFunction f arguments).renumbered number := by
  -- The fold starts from a plain number, but its induction needs any start.
  have hmerged (start : Quantity) :
      (arguments.map (Quantity.renumbered number)).foldl Quantity.merged
          (start.renumbered number) =
        (arguments.foldl Quantity.merged start).renumbered number := by
    induction arguments generalizing start with
    | nil => rfl
    | cons first others ih => exact ih (start.merged first)
  have hplain := hmerged (.number 0.0)
  rw [Quantity.renumbered_number] at hplain
  have hvalues : (arguments.map (Quantity.renumbered number)).map Quantity.value =
      arguments.map Quantity.value := by
    rw [List.map_map]
    rfl
  unfold applyFunction
  rw [hplain, hvalues]
  dsimp only
  rw [Quantity.renumbered_symbolic]
  split <;> rfl

/-- The points of a plot are plain numbers. -/
theorem samplePoints_renumbered (sample : Evaluation Quantity) (start width : Float)
    (count i : Nat) (points : List (Float × Float)) :
    ({ scope with units := table' } : Scope).samplePoints (Quantity.renumbered number <$> sample)
        start width count i points =
      scope.samplePoints sample start width count i points := by
  induction count generalizing i points with
  | zero => rfl
  | succ count ih =>
    simp only [samplePoints, withBinding_map, bind_map_left, ih]
    rfl

/-- A plot is the same, and its value is a plain number. -/
theorem plotBetween_renumbered (body : Expr) (sample : Evaluation Quantity)
    (lower upper steps : Float) :
    ({ scope with units := table' } : Scope).plotBetween body
        (Quantity.renumbered number <$> sample) lower upper steps =
      Quantity.renumbered number <$> scope.plotBetween body sample lower upper steps := by
  unfold plotBetween
  simp only [samplePoints_renumbered]
  split
  · exact (map_fail _).symm
  · simp only [map_bind]
    congr 1
    funext points
    split <;> rfl

/-- The arguments of a call are the same quantities if each of them is. -/
theorem evalArguments_renumbered (function : String) {arguments : List Expr}
    (harguments : ∀ a ∈ arguments, ({ scope with units := table' } : Scope).eval a =
      Quantity.renumbered number <$> scope.eval a) :
    ({ scope with units := table' } : Scope).evalArguments function arguments =
      Option.map (List.map (Quantity.renumbered number)) <$>
        scope.evalArguments function arguments := by
  induction arguments with
  | nil =>
    rw [evalArguments, evalArguments]
    rfl
  | cons first others ih =>
    rw [evalArguments, evalArguments, harguments first List.mem_cons_self, bind_map_left, map_bind]
    congr 1
    funext q
    simp only [Quantity.renumbered, Option.isSome_map]
    split
    · rfl
    · rw [ih fun a ha => harguments a (List.mem_cons_of_mem first ha), bind_map_left, map_bind]
      congr 1
      funext values?
      cases values? <;> rfl

/-- The bounds of a plot are plain numbers, or the same message tells that they are not. -/
theorem evalBounds_renumbered {bounds : List Expr}
    (hbounds : ∀ a ∈ bounds, ({ scope with units := table' } : Scope).eval a =
      Quantity.renumbered number <$> scope.eval a) :
    ({ scope with units := table' } : Scope).evalBounds bounds = scope.evalBounds bounds := by
  induction bounds with
  | nil =>
    rw [evalBounds, evalBounds]
  | cons first others ih =>
    rw [evalBounds, evalBounds, hbounds first List.mem_cons_self, bind_map_left,
      ih fun a ha => hbounds a (List.mem_cons_of_mem first ha)]
    simp only [Quantity.renumbered, Option.isSome_map]

/-- A call of `plot` is the same if its arguments are. -/
theorem plot_renumbered {arguments : List Expr}
    (harguments : ∀ a ∈ arguments, ({ scope with units := table' } : Scope).eval a =
      Quantity.renumbered number <$> scope.eval a) :
    ({ scope with units := table' } : Scope).plot arguments =
      Quantity.renumbered number <$> scope.plot arguments := by
  cases arguments with
  | nil =>
    rw [plot, plot]
    exact (map_fail _).symm
  | cons body bounds =>
    have hbounds := scope.evalBounds_renumbered fun a ha =>
      harguments a (List.mem_cons_of_mem body ha)
    rw [plot, plot, hbounds, harguments body List.mem_cons_self]
    split
    · rw [map_bind]
      congr 1
      funext values?
      split
      · exact scope.plotBetween_renumbered ..
      · exact scope.plotBetween_renumbered ..
      · rfl
    · exact (map_fail _).symm

/-- An expression evaluates alike whatever numbers its units have. -/
theorem eval_renumbered (htable : scope.units.Renumbered number table') (e : Expr) :
    ({ scope with units := table' } : Scope).eval e =
      Quantity.renumbered number <$> scope.eval e := by
  induction e using Expr.induction with
  | number value =>
    rw [eval, eval, map_bind]
    rfl
  | name label =>
    rw [eval, eval, map_bind, scope.identifier_renumbered htable]
    rfl
  | neg operand ih =>
    rw [eval, eval, map_bind, ih]
    simp only [bind_map_left, map_bind]
    rfl
  | binary op left right ihleft ihright =>
    rw [eval, eval, ihleft, ihright]
    simp only [bind_map_left, map_bind, Quantity.combine_renumbered htable.injective,
      ofResult_map]
    rfl
  | call function arguments ih =>
    rw [eval, eval, map_bind]
    congr 1
    funext _
    split
    · exact scope.plot_renumbered ih
    · split
      · next hfunction =>
        rw [show scope.functions.get? function = none from hfunction]
        exact (map_fail _).symm
      · next f hfunction =>
        rw [show scope.functions.get? function = some f from hfunction]
        dsimp only
        split
        · rw [scope.evalArguments_renumbered function ih, bind_map_left, map_bind]
          congr 1
          funext values?
          cases values? with
          | none => rfl
          | some values => exact congrArg pure (scope.applyFunction_renumbered f values)
        · exact (map_fail _).symm
  | convert operand unit ih =>
    rw [eval, eval, map_bind, ih]
    simp only [bind_map_left, map_bind, scope.convert_renumbered htable]
    rfl

end Scope

end Reckoner
