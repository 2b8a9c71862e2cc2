import Reckoner.Proofs.Binary64.Arithmetic
import Reckoner.Proofs.Evaluation.Outcome
import Reckoner.Proofs.Evaluation.Shown

/-!
# Where a fault leaves no number

A fault is not an exception. It is reported, and an undefined value takes the place of the one that
is missing and goes on through the operators, the functions and the conversions around it. This file
proves that each of them hands it on, whichever of its operands it is, so that no number is shown
where a fault was reported. There is one exception: a power can be one without a look at one of its
operands, and then it forgets a fault in there.
-/

namespace Reckoner

/-- A quantity without a number to show: a symbol, or an undefined value. -/
def Quantity.Void (q : Quantity) : Prop :=
  q.symbolic = true ∨ q.value.isNaN = true

/-- The undefined value is no number. -/
theorem Quantity.void_undefined : Quantity.undefined.Void :=
  .inr (by decide)

/-- Where faults are reported, the value is of a certain kind. -/
def Outcome.FaultsGive {α : Type} (outcome : Outcome α) (p : α → Prop) : Prop :=
  outcome.faults ≠ [] → p outcome.value

namespace Outcome

variable {α β : Type} {p : α → Prop} {q : β → Prop}

/-- Nothing is asked of a value without faults. -/
theorem faultsGive_value (v : α) : ({ value := v } : Outcome α).FaultsGive p :=
  fun hfaults => absurd rfl hfaults

/-- A fault leaves an undefined value. -/
theorem faultsGive_fail (fault : EvaluationFault) : (fail fault).FaultsGive Quantity.Void :=
  fun _ => Quantity.void_undefined

/-- The kind of a value is handed on if the second step does so. -/
theorem FaultsGive.andThen {first : Outcome α} {next : α → Outcome β} (hfirst : first.FaultsGive p)
    (hkept : p first.value → q (next first.value).value)
    (hnext : (next first.value).FaultsGive q) : (first.andThen next).FaultsGive q := by
  intro hfaults
  rcases not_and_or.mp (mt List.append_eq_nil_iff.mpr hfaults) with hsecond | hbefore
  · exact hnext hsecond
  · exact hkept (hfirst hbefore)

end Outcome

/-! ## Operators -/

namespace Quantity

variable {l r q : Quantity}

/-- A power of or by what is undefined is undefined, unless it is one without a look at it. -/
theorem isNaN_power {base exponent : Float} (h : base.isNaN = true ∨ exponent.isNaN = true)
    (hexponent : (exponent == 0.0) = false) (hbase : (base == 1.0) = false) :
    (power base exponent).isNaN = true := by
  rw [power, hexponent, hbase, Bool.or_false, if_neg Bool.false_ne_true,
    if_pos (Bool.or_eq_true_iff.mpr h)]
  decide

/-- Two plain numbers whose power is one whatever one of them is: the exponent is zero, or the base
is one. -/
structure TrivialPower (l r : Quantity) : Prop where
  plain : l.dimension = none ∧ r.dimension = none
  numeric : (l.merged r).symbolic = false
  one : r.value == 0.0 ∨ l.value == 1.0

/-- A trivial power is one. -/
theorem TrivialPower.combine (h : l.TrivialPower r) :
    Quantity.combine .pow l r = .ok { l.merged r with value := 1.0 } := by
  have hone : power l.value r.value = 1.0 := by
    rw [power, if_pos (Bool.or_eq_true_iff.mpr h.one)]
  unfold Quantity.combine
  simp only [h.numeric, h.plain.1, h.plain.2, hone, Option.isSome_none, Bool.or_false,
    Bool.false_eq_true, if_false]

/-- An operator with an operand that has no number gives none, but for a trivial power. -/
theorem Void.combine {op : Operator} (h : l.Void ∨ r.Void)
    (hpower : op = .pow → ¬ l.TrivialPower r) (hq : Quantity.combine op l r = .ok q) :
    q.Void := by
  unfold Quantity.combine at hq
  dsimp only at hq
  split at hq
  · next hsymbolic =>
    obtain rfl := Except.ok.inj hq
    exact .inl hsymbolic
  · next hnumeric =>
    have hundefined : l.value.isNaN = true ∨ r.value.isNaN = true := by
      have hneither := not_or.mp (mt Bool.or_eq_true_iff.mpr hnumeric)
      exact h.imp (fun hl => hl.resolve_left hneither.1) fun hr => hr.resolve_left hneither.2
    have hsum {value : Float} (hvalue : value.isNaN = true)
        (hq : combineSum (l.merged r) l r value = .ok q) : q.Void := by
      unfold combineSum at hq
      split at hq
      · obtain rfl := Except.ok.inj hq
        exact .inr hvalue
      · cases hq
    cases op with
    | add => exact hsum (Binary64.isNaN_add hundefined) hq
    | sub => exact hsum (Binary64.isNaN_sub hundefined) hq
    | mul | juxtapose =>
      dsimp only at hq
      split at hq
      · cases hq
      · obtain rfl := Except.ok.inj hq
        exact .inr (Binary64.isNaN_mul hundefined)
    | div =>
      dsimp only at hq
      split at hq
      · cases hq
      · split at hq
        · obtain rfl := Except.ok.inj hq
          exact .inr (Binary64.isNaN_div hundefined)
        · split at hq
          · obtain rfl := Except.ok.inj hq
            exact .inr (Binary64.isNaN_div hundefined)
          · cases hq
    | pow =>
      dsimp only at hq
      split at hq
      · cases hq
      · next hplain =>
        obtain rfl := Except.ok.inj hq
        have hnone : l.dimension = none ∧ r.dimension = none := by
          simpa [not_or] using hplain
        have hone : ¬ (r.value == 0.0 ∨ l.value == 1.0) := fun hone =>
          hpower rfl ⟨hnone, Bool.eq_false_iff.mpr hnumeric, hone⟩
        obtain ⟨hexponent, hbase⟩ := not_or.mp hone
        exact .inr (isNaN_power hundefined (Bool.eq_false_iff.mpr hexponent)
          (Bool.eq_false_iff.mpr hbase))

end Quantity

/-! ## Functions -/

/-- A function of which the value is undefined where one of its arguments is. -/
def NumericFunction.Strict (f : NumericFunction) : Prop :=
  ∀ unit arguments, f.accepts arguments.length = true →
    (∃ x ∈ arguments, x.isNaN = true) → (f.call unit arguments).isNaN = true

namespace NumericFunction

/-- A function made strict is undefined where its argument is. -/
theorem isNaN_strictly (f : Float → Float) {x : Float} (hx : x.isNaN = true) :
    (strictly f x).isNaN = true := by
  rw [strictly, if_pos hx]
  exact hx

/-- A function of one argument is strict if it is so in that argument. -/
theorem strict_of_unary {f : NumericFunction} (hmin : f.minArity = 1) (hmax : f.maxArity = 1)
    (hcall : ∀ unit x, x.isNaN = true → (f.call unit [x]).isNaN = true) : f.Strict := by
  intro unit arguments haccepts hundefined
  have hlength : arguments.length = 1 := by
    rw [accepts, hmin, hmax] at haccepts
    simp at haccepts
    omega
  obtain ⟨x, rfl⟩ := List.length_eq_one_iff.mp hlength
  obtain ⟨y, hy, hnan⟩ := hundefined
  obtain rfl := List.mem_singleton.mp hy
  exact hcall unit y hnan

/-- The functions that have nothing to do with angles are strict. -/
theorem strict_plain (name : String) (f : Float → Float) : (plain name f).Strict :=
  strict_of_unary rfl rfl fun _ _ hx => isNaN_strictly f hx

/-- The functions of an angle are strict. -/
theorem strict_ofAngle (name : String) (f : Float → Float) : (ofAngle name f).Strict :=
  strict_of_unary rfl rfl fun _ _ hx => isNaN_strictly f (Binary64.isNaN_mul (.inl hx))

/-- The functions whose value is an angle are strict. -/
theorem strict_toAngle (name : String) (f : Float → Float) : (toAngle name f).Strict :=
  strict_of_unary rfl rfl fun _ _ hx => Binary64.isNaN_div (.inl (isNaN_strictly f hx))

/-- The logarithm is strict in its number and in its base. -/
theorem strict_logarithm : logarithm.Strict := by
  rintro unit (_ | ⟨x, _ | ⟨base, _ | ⟨other, others⟩⟩⟩) haccepts ⟨y, hy, hnan⟩
  · cases hy
  · obtain rfl := List.mem_singleton.mp hy
    exact isNaN_strictly Float.log10 hnan
  · refine Binary64.isNaN_div ?_
    rcases List.mem_cons.mp hy with rfl | hbase
    · exact .inl (isNaN_strictly Float.log hnan)
    · obtain rfl := List.mem_singleton.mp hbase
      exact .inr (isNaN_strictly Float.log hnan)
  · simp [accepts, logarithm] at haccepts

end NumericFunction

namespace FunctionTable

/-- Every function of a table is strict. -/
def Strict (table : FunctionTable) : Prop :=
  ∀ f ∈ table.functions, f.Strict

/-- A strict function can be added. -/
theorem Strict.register {table : FunctionTable} (htable : table.Strict) {f : NumericFunction}
    (hf : f.Strict) : (table.register f).Strict := by
  intro g hg
  rcases List.mem_cons.mp hg with rfl | hold
  · exact hf
  · exact htable g (List.mem_filter.mp hold).1

/-- The functions that every engine starts with are strict. -/
theorem strict_builtin : builtin.Strict := by
  have hnone : empty.Strict := fun f hf => absurd hf List.not_mem_nil
  exact hnone
    |>.register (NumericFunction.strict_plain _ _)
    |>.register (NumericFunction.strict_plain _ _)
    |>.register (NumericFunction.strict_plain _ _)
    |>.register (NumericFunction.strict_plain _ _)
    |>.register (NumericFunction.strict_ofAngle _ _)
    |>.register (NumericFunction.strict_ofAngle _ _)
    |>.register (NumericFunction.strict_ofAngle _ _)
    |>.register (NumericFunction.strict_toAngle _ _)
    |>.register (NumericFunction.strict_toAngle _ _)
    |>.register (NumericFunction.strict_toAngle _ _)
    |>.register NumericFunction.strict_logarithm

/-- A function that is found in a strict table is strict. -/
theorem Strict.of_get? {table : FunctionTable} (htable : table.Strict) {name : String}
    {f : NumericFunction} (hfound : table.get? name = some f) : f.Strict :=
  htable f (List.mem_of_find?_eq_some hfound)

end FunctionTable

/-! ## Expressions -/

namespace Scope

variable (scope : Scope) (binding : Option Float)

/-- A power forgets a fault if one of its operands reports one and it is trivial all the same. -/
structure ForgetsFault (base exponent : Expr) : Prop where
  faulty : (scope.outcome binding base).faults ≠ [] ∨ (scope.outcome binding exponent).faults ≠ []
  trivialPower :
    (scope.outcome binding base).value.TrivialPower (scope.outcome binding exponent).value

/-- No power in an expression forgets a fault. -/
def Remembers (e : Expr) : Prop :=
  e.Everywhere fun s =>
    ∀ base exponent, s = .binary .pow base exponent → ¬ scope.ForgetsFault binding base exponent

variable {scope binding}

/-- A power that forgets a fault is one, and the fault is reported. -/
theorem ForgetsFault.outcome {base exponent : Expr}
    (h : scope.ForgetsFault binding base exponent) :
    (scope.outcome binding (.binary .pow base exponent)).value.value = 1.0 ∧
      (scope.outcome binding (.binary .pow base exponent)).value.symbolic = false ∧
      (scope.outcome binding (.binary .pow base exponent)).faults ≠ [] := by
  have hcombine := h.trivialPower.combine
  simp only [Scope.outcome, Outcome.andThen, hcombine, Outcome.ofResult]
  refine ⟨trivial, h.trivialPower.numeric, fun hfaults => ?_⟩
  obtain ⟨hright, hleft⟩ := List.append_eq_nil_iff.mp hfaults
  exact h.faulty.elim (fun hbase => hbase hleft) fun hexponent => hexponent hright

/-- A unit that a name stands for is undefined where a fault is reported. -/
theorem faultsGive_unitOutcome (unit : UnitId) (name : String) :
    (scope.unitOutcome unit name).FaultsGive Quantity.Void := by
  unfold unitOutcome
  split
  · exact Outcome.faultsGive_fail _
  · exact Outcome.faultsGive_fail _
  · exact Outcome.faultsGive_value _

/-- A name is undefined where a fault is reported. -/
theorem faultsGive_nameOutcome (label : String) :
    (scope.nameOutcome binding label).FaultsGive Quantity.Void := by
  unfold nameOutcome
  split
  · exact Outcome.faultsGive_value _
  · split
    · exact Outcome.faultsGive_value _
    · split
      · exact faultsGive_unitOutcome _ label
      · split
        · exact Outcome.faultsGive_value _
        · exact Outcome.faultsGive_fail _

/-- A conversion has no number where what is converted has none or a fault is reported. -/
theorem void_convertOutcome (q : Quantity) (name : String) :
    (q.Void → (scope.convertOutcome q name).value.Void) ∧
      (scope.convertOutcome q name).FaultsGive Quantity.Void := by
  unfold convertOutcome
  split
  · exact ⟨id, Outcome.faultsGive_value _⟩
  · next hnumeric =>
    split
    · exact ⟨fun _ => Quantity.void_undefined, Outcome.faultsGive_fail _⟩
    · next unit _ =>
      have htarget : (scope.unitOutcome unit name).FaultsGive Quantity.Void :=
        faultsGive_unitOutcome unit name
      constructor
      · intro hq
        dsimp only [Outcome.andThen]
        split
        · next hundefined => exact .inr hundefined
        · split
          · exact .inr (hq.resolve_left hnumeric)
          · exact Quantity.void_undefined
      · refine htarget.andThen (fun hvoid => ?_) ?_
        · split
          · exact hvoid
          · next hdefined =>
            split
            · exact .inl (Bool.or_eq_true_iff.mpr (.inr (hvoid.resolve_right hdefined)))
            · exact Quantity.void_undefined
        · split
          · exact Outcome.faultsGive_value _
          · split
            · exact Outcome.faultsGive_value _
            · exact Outcome.faultsGive_fail _

/-- Where arguments report a fault, there are no values, or one of them is no number. -/
theorem faultsGive_argumentsOutcome (function : String) {arguments : List Expr}
    (harguments : ∀ e ∈ arguments, (scope.outcome binding e).FaultsGive Quantity.Void) :
    (scope.argumentsOutcome binding function arguments).FaultsGive fun values? =>
      ∀ values, values? = some values → ∃ q ∈ values, q.Void := by
  induction arguments with
  | nil => exact Outcome.faultsGive_value _
  | cons first others ih =>
    have hothers := ih fun e he => harguments e (List.mem_cons_of_mem first he)
    rw [argumentsOutcome]
    refine (harguments first List.mem_cons_self).andThen (fun hvoid => ?_) ?_
    · split
      · intro values hvalues
        cases hvalues
      · intro values hvalues
        obtain ⟨rest, -, rfl⟩ := Option.map_eq_some_iff.mp hvalues
        exact ⟨_, List.mem_cons_self, hvoid⟩
    · split
      · intro _ values hvalues
        cases hvalues
      · refine hothers.andThen (fun hrest => ?_) (Outcome.faultsGive_value _)
        intro values hvalues
        obtain ⟨rest, hsome, rfl⟩ := Option.map_eq_some_iff.mp hvalues
        obtain ⟨q, hq, hvoid⟩ := hrest rest hsome
        exact ⟨q, List.mem_cons_of_mem _ hq, hvoid⟩

/-- There are as many values as arguments. -/
theorem length_argumentsOutcome {function : String} {arguments : List Expr}
    {values : List Quantity}
    (hvalues : (scope.argumentsOutcome binding function arguments).value = some values) :
    values.length = arguments.length := by
  induction arguments generalizing values with
  | nil =>
    obtain rfl := Option.some.inj hvalues
    rfl
  | cons first others ih =>
    rw [argumentsOutcome] at hvalues
    dsimp only [Outcome.andThen] at hvalues
    split at hvalues
    · cases hvalues
    · obtain ⟨rest, hrest, rfl⟩ := Option.map_eq_some_iff.mp hvalues
      rw [List.length_cons, List.length_cons, ih hrest]

/-- A strict function has no number at arguments one of which is none. -/
theorem void_applyFunction {f : NumericFunction} (hf : f.Strict) {values : List Quantity}
    (haccepts : f.accepts values.length = true) (hvoid : ∃ q ∈ values, q.Void) :
    (scope.applyFunction f values).Void := by
  unfold applyFunction
  dsimp only
  split
  · next hsymbolic => exact .inl hsymbolic
  · next hnumeric =>
    rw [Quantity.symbolic_foldl_merged] at hnumeric
    obtain ⟨q, hq, hqvoid⟩ := hvoid
    have hplain : ¬ q.symbolic = true := fun hsymbolic =>
      hnumeric (Bool.or_eq_true_iff.mpr (.inr (List.any_eq_true.mpr ⟨q, hq, hsymbolic⟩)))
    refine .inr (hf _ _ ?_ ⟨q.value, List.mem_map_of_mem hq, hqvoid.resolve_left hplain⟩)
    rw [List.length_map]
    exact haccepts

/-- Where an expression reports a fault that no power forgets, it has no number. -/
theorem faultsGive_outcome (hstrict : scope.functions.Strict) {e : Expr}
    (hremembers : scope.Remembers binding e) :
    (scope.outcome binding e).FaultsGive Quantity.Void := by
  induction hremembers with
  | number =>
    rw [Scope.outcome]
    exact Outcome.faultsGive_value _
  | name =>
    rw [Scope.outcome]
    exact faultsGive_nameOutcome _
  | neg _ _ ih =>
    rw [Scope.outcome]
    exact ih.andThen (fun hvoid => hvoid.imp id Binary64.isNaN_neg) (Outcome.faultsGive_value _)
  | @binary op left right here _ _ ihleft ihright =>
    rw [Scope.outcome]
    intro hfaults
    dsimp only [Outcome.andThen] at hfaults ⊢
    cases hcombined : Quantity.combine op (scope.outcome binding left).value
        (scope.outcome binding right).value with
    | error fault => exact Quantity.void_undefined
    | ok q =>
      rw [hcombined] at hfaults
      have hfaulty : (scope.outcome binding left).faults ≠ [] ∨
          (scope.outcome binding right).faults ≠ [] := by
        by_contra hneither
        obtain ⟨hleft, hright⟩ := not_or.mp hneither
        exact hfaults (by rw [not_not.mp hleft, not_not.mp hright]; rfl)
      refine Quantity.Void.combine (hfaulty.imp (@ihleft) (@ihright)) (fun hpow htrivial => ?_)
        hcombined
      obtain rfl := hpow
      exact here left right rfl ⟨hfaulty, htrivial⟩
  | @call function arguments _ _ ih =>
    rw [Scope.outcome]
    split
    · exact Outcome.faultsGive_fail _
    · next f hfound =>
      split
      · next haccepts =>
        intro hfaults
        dsimp only [Outcome.andThen] at hfaults ⊢
        cases hvalues : (scope.argumentsOutcome binding function arguments).value with
        | none => exact Quantity.void_undefined
        | some values =>
          rw [hvalues] at hfaults
          have hvoid := faultsGive_argumentsOutcome function ih hfaults values hvalues
          rw [← length_argumentsOutcome hvalues] at haccepts
          exact void_applyFunction (hstrict.of_get? hfound) haccepts hvoid
      · exact Outcome.faultsGive_fail _
  | convert _ _ ih =>
    rw [Scope.outcome]
    exact ih.andThen (void_convertOutcome _ _).1 (void_convertOutcome _ _).2

end Scope

/-! ## What is shown -/

namespace StandardEngine

variable {engine : StandardEngine} {settings : Settings} {clock : Clock} {deadline : Int}
  {e : Expr} {q : Quantity} {start after : Run}

/-- What is undefined is shown as such, in whatever unit. -/
theorem render_of_isNaN (hq : q.value.isNaN = true) : engine.render settings q = "undefined" := by
  rw [render]
  cases engine.displayUnit? q with
  | none => exact (if_pos hq).trans (amountText_of_isNaN hq settings q)
  | some shown =>
    have hamount : (q.value / shown.2).isNaN = true := Binary64.isNaN_div (.inl hq)
    exact (if_pos hamount).trans (amountText_of_isNaN hamount settings q)

/-- Whatever the tables of the engine, the settings and the value of `x`: when an expression without
plots has been evaluated and something was reported meanwhile, then the value is a symbol, or it is
undefined and shown as such, unless a power in the expression forgets a fault of its operands. -/
theorem eval_faulty_undefined (hfunctions : engine.functions = .builtin) (hplotless : e.Plotless)
    (hremembers : (engine.scope settings clock deadline).Remembers start.binding e)
    (hrun : ((engine.scope settings clock deadline).eval e).run start = (.ok q, after))
    (hreported : after.messages ≠ start.messages) :
    q.symbolic = true ∨ q.value.isNaN = true ∧ engine.render settings q = "undefined" := by
  have hstrict : (engine.scope settings clock deadline).functions.Strict := by
    show engine.functions.Strict
    rw [hfunctions]
    exact FunctionTable.strict_builtin
  obtain ⟨rfl, ticks, rfl⟩ := Scope.computes_eval _ hplotless hrun
  have hfaults : ((engine.scope settings clock deadline).outcome start.binding e).faults ≠ [] := by
    intro hnone
    apply hreported
    simp only [Outcome.after, Outcome.messages, hnone, List.map_nil, List.nil_append]
  exact (Scope.faultsGive_outcome hstrict hremembers hfaults).imp id fun hnan =>
    ⟨hnan, render_of_isNaN hnan⟩

/-- The root of a power of a quotient by zero is an undefined length, also in kilometres. -/
theorem eval_faulty_undefined_length :
    let power := Expr.binary .pow (.number 2.0) (.binary .div (.number 1.0) (.number 0.0))
    let e := Expr.convert (.binary .juxtapose (.call "sqrt" [power]) (.name "m")) "km"
    let run := ((withDefinitions.scope {} (.metered 0 1) 500).eval e).run {}
    ∃ q after, run = (.ok q, after) ∧ after.messages ≠ [] ∧ q.value.isNaN = true ∧
      withDefinitions.render {} q = "undefined" := by
  intro power e run
  have hnumeric : run.1.map Quantity.symbolic = .ok false := by decide +kernel
  have hreported : run.2.messages ≠ [] := by decide +kernel
  have hplotless : e.Plotless := by
    have hpower : power.Plotless :=
      .binary nofun (.number nofun) (.binary nofun (.number nofun) (.number nofun))
    have hcall : (Expr.call "sqrt" [power]).Plotless :=
      .call (fun _ h => absurd (Expr.call.inj h).1 (by decide)) fun a ha =>
        List.mem_singleton.mp ha ▸ hpower
    exact .convert nofun (.binary nofun hcall (.name nofun))
  have hremembers : (withDefinitions.scope {} (.metered 0 1) 500).Remembers none e := by
    have hpower : (withDefinitions.scope {} (.metered 0 1) 500).Remembers none power := by
      refine .binary ?_ (.number nofun) (.binary nofun (.number nofun) (.number nofun))
      rintro base exponent hsame ⟨-, htrivial⟩
      cases hsame
      exact htrivial.one.elim (absurd · (by decide +kernel)) (absurd · (by decide +kernel))
    have hcall : (withDefinitions.scope {} (.metered 0 1) 500).Remembers none
        (.call "sqrt" [power]) :=
      .call nofun fun a ha => List.mem_singleton.mp ha ▸ hpower
    exact .convert nofun (.binary nofun hcall (.name nofun))
  cases houtcome : run.1 with
  | error halt =>
    rw [houtcome] at hnumeric
    cases hnumeric
  | ok q =>
    rw [houtcome] at hnumeric
    have hrun : run = (.ok q, run.2) := Prod.ext houtcome rfl
    refine ⟨q, run.2, hrun, hreported, ?_⟩
    rcases eval_faulty_undefined rfl hplotless hremembers hrun hreported with hsymbol | hundefined
    · cases hsymbol.symm.trans (Except.ok.inj hnumeric)
    · exact hundefined

/-- A quotient by zero is forgotten in the power of zero, and one is shown with the message. -/
example :
    let e := Expr.binary .pow (.binary .div (.number 1.0) (.number 0.0)) (.number 0.0)
    let run := withDefinitions.evaluate {} (.metered 0 1) 500 {} e
    run.1.map (withDefinitions.render {}) = .ok "1" ∧
      run.2.messages = [⟨.error, "Division by zero."⟩] := by
  decide +kernel

end StandardEngine

end Reckoner
