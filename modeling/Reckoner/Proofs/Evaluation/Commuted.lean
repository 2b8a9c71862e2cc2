import Reckoner.Proofs.Evaluation.Outcome
import Reckoner.Proofs.Binary64.Operations
import Reckoner.StandardEngine.Definitions

/-!
# Operands that trade places

Sums and products are built from their left operand by updating a record, so it takes a proof that
the order of the operands does not matter. For numbers it does not, nor does it for faults. What is
symbolic keeps the dimension of its left operand: a symbol times a length has no dimension, and a
length times a symbol has one. A call that wants plain arguments can tell these two apart; a
conversion cannot.
-/

namespace Reckoner

/-! ## Quantities -/

namespace Quantity

/-- Of two precisions, either may be compared with the other. -/
theorem coarser_comm (p p' : Option Int) : coarser p p' = coarser p' p := by
  cases p <;> cases p' <;> simp [coarser, Int.max_comm]

/-- What the values of an operator have in common that is applied to two operands and to the same
operands the other way round. The units in which they are shown may differ. -/
structure Commuted (l r q q' : Quantity) : Prop where
  approximate : q.approximate = q'.approximate
  precision : q.precision = q'.precision
  symbolic : q.symbolic = q'.symbolic
  /-- Numbers are the same, in the same dimension. -/
  numeric : q.symbolic = false → q.value = q'.value ∧ q.dimension = q'.dimension
  /-- What has no value has the dimension of its left operand. -/
  ofLeft : q.symbolic = true → q.dimension = l.dimension ∧ q'.dimension = r.dimension

variable {l r q q' : Quantity}

/-- What is undefined is the same either way. -/
theorem commuted_undefined (l r : Quantity) : Commuted l r undefined undefined :=
  ⟨rfl, rfl, rfl, fun _ => ⟨rfl, rfl⟩, nofun⟩

/-- Merged quantities that are symbolic. -/
theorem commuted_merged (hsymbolic : (l.merged r).symbolic = true) :
    Commuted l r (l.merged r) (r.merged l) where
  approximate := Bool.or_comm _ _
  precision := coarser_comm _ _
  symbolic := Bool.or_comm _ _
  numeric hnumeric := by rw [hsymbolic] at hnumeric; cases hnumeric
  ofLeft _ := ⟨rfl, rfl⟩

/-- Merged quantities that are given the same value and the same dimension. -/
theorem commuted_numeric (hnumeric : (l.merged r).symbolic = false) {value value' : Float}
    {dimension dimension' : Option UnitId} (hvalue : value = value')
    (hdimension : dimension = dimension') (display display' : Option UnitId) :
    Commuted l r { l.merged r with value, dimension, display }
      { r.merged l with value := value', dimension := dimension', display := display' } where
  approximate := Bool.or_comm _ _
  precision := coarser_comm _ _
  symbolic := Bool.or_comm _ _
  numeric _ := ⟨hvalue, hdimension⟩
  ofLeft hsymbolic := by
    have hboth : (l.merged r).symbolic = true := hsymbolic
    rw [hnumeric] at hboth
    cases hboth

/-- An operator whose operands may trade places has the same fault both ways, or it has a value both
ways. -/
theorem combine_commuted {op : Operator} (hop : op.isCommutative = true) (l r : Quantity) :
    (∃ fault, combine op l r = .error fault ∧ combine op r l = .error fault) ∨
      ∃ q q', combine op l r = .ok q ∧ combine op r l = .ok q' ∧ Commuted l r q q' := by
  have hsame : (r.merged l).symbolic = (l.merged r).symbolic := Bool.or_comm _ _
  cases hsymbolic : (l.merged r).symbolic with
  | true =>
    exact .inr ⟨_, _, if_pos hsymbolic, if_pos (hsame.trans hsymbolic), commuted_merged hsymbolic⟩
  | false =>
    have hforth : ¬(l.merged r).symbolic = true := Bool.eq_false_iff.mp hsymbolic
    have hback : ¬(r.merged l).symbolic = true := Bool.eq_false_iff.mp (hsame.trans hsymbolic)
    have hproduct :
        (∃ fault, combine .mul l r = .error fault ∧ combine .mul r l = .error fault) ∨
          ∃ q q', combine .mul l r = .ok q ∧ combine .mul r l = .ok q' ∧ Commuted l r q q' := by
      simp only [combine, if_neg hforth, if_neg hback,
        Bool.and_comm r.dimension.isSome l.dimension.isSome]
      by_cases hboth : (l.dimension.isSome && r.dimension.isSome) = true
      · rw [if_pos hboth, if_pos hboth]
        exact .inl ⟨_, rfl, rfl⟩
      · rw [if_neg hboth, if_neg hboth]
        have hdimension : l.dimension.or r.dimension = r.dimension.or l.dimension := by
          cases hleft : l.dimension with
          | none => exact Option.or_none.symm
          | some root =>
            cases hright : r.dimension with
            | none => rfl
            | some root' => exact absurd (by rw [hleft, hright]; rfl) hboth
        exact .inr ⟨_, _, rfl, rfl,
          commuted_numeric hsymbolic (Binary64.mul_comm _ _) hdimension _ _⟩
    cases op with
    | sub | div | pow => cases hop
    | mul => exact hproduct
    | juxtapose => exact hproduct
    | add =>
      simp only [combine, if_neg hforth, if_neg hback, combineSum]
      by_cases hdimension : l.dimension = r.dimension
      · rw [if_pos hdimension, if_pos hdimension.symm]
        exact .inr ⟨_, _, rfl, rfl,
          commuted_numeric hsymbolic (Binary64.add_comm _ _) hdimension _ _⟩
      · rw [if_neg hdimension, if_neg (Ne.symm hdimension)]
        exact .inl ⟨_, rfl, rfl⟩

end Quantity

namespace Scope

variable {scope : Scope} {binding : Option Float}

/-! ## What expressions report -/

/-- Operands that report nothing may trade places: the operator has the same fault or none, and its
values have in common what they should. -/
theorem outcome_binary_commuted {op : Operator} (hop : op.isCommutative = true) {l r : Expr}
    (hl : (scope.outcome binding l).faults = []) (hr : (scope.outcome binding r).faults = []) :
    (scope.outcome binding (.binary op l r)).faults =
        (scope.outcome binding (.binary op r l)).faults ∧
      Quantity.Commuted (scope.outcome binding l).value (scope.outcome binding r).value
        (scope.outcome binding (.binary op l r)).value
        (scope.outcome binding (.binary op r l)).value := by
  simp only [outcome, Outcome.andThen, hl, hr, List.append_nil]
  rcases Quantity.combine_commuted hop (scope.outcome binding l).value
    (scope.outcome binding r).value with
    ⟨fault, hforth, hback⟩ | ⟨q, q', hforth, hback, hcommuted⟩
  · rw [hforth, hback]
    exact ⟨rfl, Quantity.commuted_undefined _ _⟩
  · rw [hforth, hback]
    exact ⟨rfl, hcommuted⟩

/-- Of the value of an argument, a call reports only whether it has a unit. -/
theorem faults_argumentsOutcome_congr {function : String} {e e' : Expr}
    (hfaults : (scope.outcome binding e).faults = (scope.outcome binding e').faults)
    (hunit : (scope.outcome binding e).value.dimension.isSome =
      (scope.outcome binding e').value.dimension.isSome) (before others : List Expr) :
    (scope.argumentsOutcome binding function (before ++ e :: others)).faults =
      (scope.argumentsOutcome binding function (before ++ e' :: others)).faults := by
  induction before with
  | nil =>
    simp only [List.nil_append, argumentsOutcome, Outcome.andThen, hfaults, hunit]
    split <;> rfl
  | cons first before ih =>
    simp only [List.cons_append, argumentsOutcome, Outcome.andThen]
    split
    · rfl
    · simp only [ih]

/-- A call reports what its arguments do, and whether it is called in the right way. -/
theorem faults_call_congr {function : String} {arguments arguments' : List Expr}
    (hlength : arguments.length = arguments'.length)
    (hfaults : (scope.argumentsOutcome binding function arguments).faults =
      (scope.argumentsOutcome binding function arguments').faults) :
    (scope.outcome binding (.call function arguments)).faults =
      (scope.outcome binding (.call function arguments')).faults := by
  rw [outcome, outcome, hlength]
  cases scope.functions.get? function with
  | none => rfl
  | some f =>
    dsimp only
    split
    · simp only [Outcome.andThen, hfaults]
      -- What the function makes of its arguments reports nothing.
      cases (scope.argumentsOutcome binding function arguments).value <;>
        cases (scope.argumentsOutcome binding function arguments').value <;> rfl
    · rfl

/-- A conversion cannot tell the values of an operator apart whose operands traded places. -/
theorem faults_convert_congr {e e' : Expr} {l r : Quantity}
    (hfaults : (scope.outcome binding e).faults = (scope.outcome binding e').faults)
    (hvalues : Quantity.Commuted l r (scope.outcome binding e).value
      (scope.outcome binding e').value) (unit : String) :
    (scope.outcome binding (.convert e unit)).faults =
      (scope.outcome binding (.convert e' unit)).faults := by
  simp only [outcome, Outcome.andThen, hfaults]
  congr 1
  unfold convertOutcome
  rw [← hvalues.symbolic]
  cases hsymbolic : (scope.outcome binding e).value.symbolic with
  | true => rfl
  | false =>
    rw [if_neg Bool.false_ne_true, if_neg Bool.false_ne_true, ← (hvalues.numeric hsymbolic).2]
    cases scope.units.find? unit with
    | none => rfl
    | some target =>
      simp only [Outcome.andThen]
      congr 1
      split
      · rfl
      · split <;> rfl

/-- The evaluations of two expressions from one run report the same, when they come to their
ends. -/
def ReportsAlike (scope : Scope) (start : Run) (e e' : Expr) : Prop :=
  ∀ ⦃q q' after after'⦄, (scope.eval e).run start = (.ok q, after) →
    (scope.eval e').run start = (.ok q', after') → after.messages = after'.messages

/-- Expressions with the same faults report the same. -/
theorem reportsAlike_of_faults {start : Run} {e e' : Expr} (he : e.Plotless) (he' : e'.Plotless)
    (hfaults : (scope.outcome start.binding e).faults = (scope.outcome start.binding e').faults) :
    scope.ReportsAlike start e e' := by
  intro q q' after after' hrun hrun'
  obtain ⟨-, ticks, rfl⟩ := scope.computes_eval he hrun
  obtain ⟨-, ticks', rfl⟩ := scope.computes_eval he' hrun'
  simp only [Outcome.after, Outcome.messages, hfaults]

/-- The faults of an evaluation that added no message. -/
theorem faults_eq_nil_of_quiet {start after : Run} {e : Expr} {q : Quantity} (he : e.Plotless)
    (hrun : (scope.eval e).run start = (.ok q, after)) (hquiet : after.messages = start.messages) :
    (scope.outcome start.binding e).faults = [] := by
  obtain ⟨-, ticks, rfl⟩ := scope.computes_eval he hrun
  exact List.map_eq_nil_iff.mp (List.append_left_eq_self.mp hquiet)

/-- A function of one argument reports nothing more than its argument does if that has no unit, and
otherwise it reports the unit. -/
theorem quiet_call_iff {function : String} {f : NumericFunction} {e : Expr}
    {start after after' : Run} {q p : Quantity} (hfunction : function ≠ "plot")
    (hget : scope.functions.get? function = some f) (haccepts : f.accepts 1 = true)
    (he : e.Plotless) (hrun : (scope.eval e).run start = (.ok q, after))
    (hquiet : after.messages = start.messages)
    (hcall : (scope.eval (.call function [e])).run start = (.ok p, after')) :
    after'.messages = start.messages ↔ q.dimension = none := by
  have hfaults := faults_eq_nil_of_quiet he hrun hquiet
  have hplotless : (Expr.call function [e]).Plotless :=
    .call (fun _ h => hfunction (Expr.call.inj h).1) fun a ha => List.mem_singleton.mp ha ▸ he
  obtain ⟨rfl, -⟩ := scope.computes_eval he hrun
  obtain ⟨-, ticks, rfl⟩ := scope.computes_eval hplotless hcall
  dsimp only [Outcome.after]
  rw [List.append_left_eq_self, Outcome.messages, List.map_eq_nil_iff, outcome, hget]
  dsimp only
  rw [List.length_singleton, if_pos haccepts]
  simp only [argumentsOutcome, Outcome.andThen, hfaults, List.append_nil]
  cases (scope.outcome start.binding e).value.dimension with
  | none => exact iff_of_true rfl rfl
  | some root => exact iff_of_false (List.cons_ne_nil _ _) (Option.some_ne_none root)

/-! ## Operands in either order -/

/-- Whatever the tables, the settings and the value of `x`: operands of a sum, a product or a
juxtaposition that plot and report nothing may trade places. The same is reported, the marks of the
value and the value itself are the same, and so is its dimension, unless it is symbolic: then it has
the dimension of the left operand. Nothing that is reported of a conversion depends on the order,
and nothing that is reported of a call, if the dimensions are both there or both missing. If only
one of them is there, then a function of one argument accepts one order and refuses the other. -/
theorem eval_commuted {op : Operator} (hop : op.isCommutative = true) {l r : Expr}
    (hl : l.Plotless) (hr : r.Plotless) {start afterLeft afterRight after after' : Run}
    {ql qr q q' : Quantity}
    (hleft : (scope.eval l).run start = (.ok ql, afterLeft))
    (hleftQuiet : afterLeft.messages = start.messages)
    (hright : (scope.eval r).run start = (.ok qr, afterRight))
    (hrightQuiet : afterRight.messages = start.messages)
    (hforth : (scope.eval (.binary op l r)).run start = (.ok q, after))
    (hback : (scope.eval (.binary op r l)).run start = (.ok q', after')) :
    after.messages = after'.messages ∧ Quantity.Commuted ql qr q q' ∧
      (∀ unit, scope.ReportsAlike start (.convert (.binary op l r) unit)
        (.convert (.binary op r l) unit)) ∧
      (q.dimension.isSome = q'.dimension.isSome →
        ∀ function before others, function ≠ "plot" → (∀ e ∈ before ++ others, e.Plotless) →
          scope.ReportsAlike start (.call function (before ++ .binary op l r :: others))
            (.call function (before ++ .binary op r l :: others))) ∧
      (q.dimension.isSome ≠ q'.dimension.isSome → after.messages = start.messages →
        ∀ function f p p' afterCall afterCall', function ≠ "plot" →
          scope.functions.get? function = some f → f.accepts 1 = true →
          (scope.eval (.call function [.binary op l r])).run start = (.ok p, afterCall) →
          (scope.eval (.call function [.binary op r l])).run start = (.ok p', afterCall') →
          (afterCall.messages = start.messages ↔ afterCall'.messages ≠ start.messages)) := by
  have hlr : (Expr.binary op l r).Plotless := .binary nofun hl hr
  have hrl : (Expr.binary op r l).Plotless := .binary nofun hr hl
  have hlFaults := faults_eq_nil_of_quiet hl hleft hleftQuiet
  have hrFaults := faults_eq_nil_of_quiet hr hright hrightQuiet
  obtain ⟨hfaults, hvalues⟩ := scope.outcome_binary_commuted hop hlFaults hrFaults
  have hmessages := reportsAlike_of_faults hlr hrl hfaults hforth hback
  obtain ⟨hql, -⟩ := scope.computes_eval hl hleft
  obtain ⟨hqr, -⟩ := scope.computes_eval hr hright
  obtain ⟨hq, -⟩ := scope.computes_eval hlr hforth
  obtain ⟨hq', -⟩ := scope.computes_eval hrl hback
  dsimp only at hql hqr hq hq'
  refine ⟨hmessages, ?_, fun unit => ?_,
    fun hunit function before others hfunction hplotless => ?_,
    fun hunit hquiet function f p p' _ _ hfunction hget haccepts hcall hcall' => ?_⟩
  · rw [hql, hqr, hq, hq']
    exact hvalues
  · exact reportsAlike_of_faults (.convert nofun hlr) (.convert nofun hrl)
      (faults_convert_congr hfaults hvalues unit)
  · have hcall {e : Expr} (he : e.Plotless) :
        (Expr.call function (before ++ e :: others)).Plotless :=
      .call (fun _ h => hfunction (Expr.call.inj h).1) fun a ha => by
        rcases List.mem_append.mp ha with hbefore | hrest
        · exact hplotless a (List.mem_append_left _ hbefore)
        · rcases List.mem_cons.mp hrest with rfl | hothers
          · exact he
          · exact hplotless a (List.mem_append_right _ hothers)
    rw [hq, hq'] at hunit
    refine reportsAlike_of_faults (hcall hlr) (hcall hrl) (faults_call_congr ?_ ?_)
    · simp only [List.length_append, List.length_cons]
    · exact faults_argumentsOutcome_congr hfaults hunit before others
  · have hforthIff := quiet_call_iff hfunction hget haccepts hlr hforth hquiet hcall
    have hbackIff := quiet_call_iff hfunction hget haccepts hrl hback (hmessages ▸ hquiet) hcall'
    rw [hforthIff, Ne, hbackIff]
    cases hforthUnit : q.dimension with
    | none =>
      refine iff_of_true rfl fun hbackUnit => hunit ?_
      rw [hforthUnit, hbackUnit]
    | some root =>
      refine iff_of_false nofun fun hbackUnit => ?_
      cases hbackUnit' : q'.dimension with
      | none => exact hbackUnit hbackUnit'
      | some root' => exact hunit (by rw [hforthUnit, hbackUnit']; rfl)

/-- An evaluation of whose value something is known has come to its end. -/
theorem exists_of_map_eq_ok {α β : Type} {outcome : Except Halt α × Run} (f : α → β) {v : β}
    (h : outcome.1.map f = .ok v) : ∃ q, outcome = (.ok q, outcome.2) ∧ f q = v := by
  obtain ⟨result, after⟩ := outcome
  cases result with
  | error halt => cases h
  | ok q => exact ⟨q, rfl, Except.ok.inj h⟩

/-- The square root takes a symbol times a metre and refuses a metre times a symbol. -/
theorem eval_commuted_metre :
    let scope := StandardEngine.withDefinitions.scope {} (.metered 0 1) 500
    let forth := Expr.binary .mul (.name "x") (.name "m")
    let back := Expr.binary .mul (.name "m") (.name "x")
    ∃ q q', (scope.eval forth).run {} = (.ok q, ((scope.eval forth).run {}).2) ∧
      (scope.eval back).run {} = (.ok q', ((scope.eval back).run {}).2) ∧
      q.symbolic = true ∧ q'.symbolic = true ∧
      q.dimension.isSome = false ∧ q'.dimension.isSome = true ∧
      ((scope.eval (.call "sqrt" [forth])).run {}).2.messages = [] ∧
      ((scope.eval (.call "sqrt" [back])).run {}).2.messages ≠ [] := by
  intro scope forth back
  obtain ⟨f, hget⟩ : ∃ f, scope.functions.get? "sqrt" = some f :=
    Option.isSome_iff_exists.mp (by decide +kernel)
  have haccepts : f.accepts 1 = true := by
    have hall : (scope.functions.get? "sqrt").all (NumericFunction.accepts · 1) = true := by
      decide +kernel
    rw [hget] at hall
    exact hall
  have hleftRun : ((scope.eval (.name "x")).run {}).1.map Quantity.symbolic = .ok true := by
    decide +kernel
  have hrightRun : ((scope.eval (.name "m")).run {}).1.map Quantity.symbolic = .ok false := by
    decide +kernel
  have hforthRun : ((scope.eval forth).run {}).1.map (fun q => (q.symbolic, q.dimension.isSome)) =
      .ok (true, false) := by decide +kernel
  have hbackRun : ((scope.eval back).run {}).1.map (fun q => (q.symbolic, q.dimension.isSome)) =
      .ok (true, true) := by decide +kernel
  have hcallRun : ((scope.eval (.call "sqrt" [forth])).run {}).1.map Quantity.symbolic =
      .ok true := by decide +kernel
  have hcallRun' : ((scope.eval (.call "sqrt" [back])).run {}).1.map Quantity.symbolic =
      .ok false := by decide +kernel
  obtain ⟨ql, hleft, -⟩ := exists_of_map_eq_ok _ hleftRun
  obtain ⟨qr, hright, -⟩ := exists_of_map_eq_ok _ hrightRun
  obtain ⟨q, hforth, hq⟩ := exists_of_map_eq_ok _ hforthRun
  obtain ⟨q', hback, hq'⟩ := exists_of_map_eq_ok _ hbackRun
  obtain ⟨p, hcall, -⟩ := exists_of_map_eq_ok _ hcallRun
  obtain ⟨p', hcall', -⟩ := exists_of_map_eq_ok _ hcallRun'
  have hquiet : ((scope.eval forth).run {}).2.messages = [] := by decide +kernel
  have haccepted : ((scope.eval (.call "sqrt" [forth])).run {}).2.messages = [] := by decide +kernel
  obtain ⟨hsymbolic, hunit⟩ := Prod.mk.inj hq
  obtain ⟨hsymbolic', hunit'⟩ := Prod.mk.inj hq'
  have hcommutative : Operator.mul.isCommutative = true := rfl
  obtain ⟨-, -, -, -, hrefuses⟩ := eval_commuted hcommutative (.name nofun) (.name nofun) hleft
    (by decide +kernel) hright (by decide +kernel) hforth hback
  have hdiffers : q.dimension.isSome ≠ q'.dimension.isSome := by
    rw [hunit, hunit']
    exact Bool.false_ne_true
  refine ⟨q, q', hforth, hback, hsymbolic, hsymbolic', hunit, hunit', haccepted, ?_⟩
  exact (hrefuses hdiffers hquiet "sqrt" f p p' _ _ (by decide) hget haccepts hcall hcall').mp
    haccepted

end Scope

end Reckoner
