import Reckoner.Evaluation
import Reckoner.Proofs.Expr.Structure

/-!
# Evaluations step by step

Two evaluations of one expression take the same steps in the same order, and differ at most in how
they look at the clock and in what names stand for. A relation between evaluations that all steps
keep therefore holds of the evaluations of an expression as soon as it holds there. This file goes
through an expression once for all such relations.
-/

namespace Reckoner

namespace Evaluation

variable {α β : Type}

/-- A step goes on with the value and the run of the step before it, unless that one halts. -/
theorem run_bind (x : Evaluation α) (f : α → Evaluation β) (a : Run) :
    (x >>= f).run a =
      match x.run a with
      | (.ok v, b) => (f v).run b
      | (.error halt, b) => (.error halt, b) := by
  show (ExceptT.bindCont f (x.run a).1) (x.run a).2 = _
  obtain ⟨outcome, b⟩ := x.run a
  cases outcome <;> rfl

/-- Two steps have a value just when the first one has one and the second one has it from there. -/
theorem run_bind_eq_ok_iff {x : Evaluation α} {f : α → Evaluation β} {a c : Run} {w : β} :
    (x >>= f).run a = (.ok w, c) ↔
      ∃ v b, x.run a = (.ok v, b) ∧ (f v).run b = (.ok w, c) := by
  rw [run_bind]
  cases hfirst : x.run a with
  | mk outcome b =>
    constructor
    · intro hrun
      cases outcome with
      | ok v => exact ⟨v, b, rfl, hrun⟩
      | error halt => cases (Prod.mk.inj hrun).1
    · rintro ⟨v, b', hvalue, hrun⟩
      obtain ⟨rfl, rfl⟩ := Prod.mk.inj hvalue
      exact hrun

/-- All values that an evaluation may have satisfy a condition. -/
def Yields (x : Evaluation α) (p : α → Prop) : Prop :=
  ∀ ⦃a v b⦄, x.run a = (.ok v, b) → p v

namespace Yields

variable {p : α → Prop} {q : β → Prop}

/-- A value that is there already is the only one. -/
theorem pure {v : α} (hv : p v) : Yields (pure v) p := by
  intro a w b hrun
  obtain rfl := Except.ok.inj (Prod.mk.inj hrun).1
  exact hv

/-- The values of two steps are those of the second one, from a value of the first one. -/
theorem bind {x : Evaluation α} {f : α → Evaluation β} (hx : Yields x p)
    (hf : ∀ v, p v → Yields (f v) q) : Yields (x >>= f) q := by
  intro a w c hrun
  obtain ⟨v, b, hfirst, hsecond⟩ := run_bind_eq_ok_iff.mp hrun
  exact hf v (hx hfirst) hsecond

/-- The value of the first of two steps need not matter. -/
theorem after {x : Evaluation α} {f : α → Evaluation β} (hf : ∀ v, Yields (f v) q) :
    Yields (x >>= f) q :=
  bind (fun _ _ _ _ => trivial) fun v (_ : True) => hf v

/-- The value after a fault is undefined. -/
theorem fail {p : Quantity → Prop} (hundefined : p .undefined) (fault : EvaluationFault) :
    Yields (fail fault) p :=
  after fun _ => pure hundefined

end Yields

/-- What is evaluated with `x` bound ends as it does otherwise, with the old binding put back. -/
theorem run_withBinding (value : Float) (x : Evaluation α) (a : Run) :
    (withBinding value x).run a =
      ((x.run { a with binding := some value }).1,
        { (x.run { a with binding := some value }).2 with binding := a.binding }) :=
  rfl

/-- A change to the run does nothing else. -/
theorem run_modify (change : Run → Run) (a : Run) :
    (modify change : Evaluation Unit).run a = (.ok (), change a) :=
  rfl

/-- A relation between evaluations that is kept by the steps of which they are made. Of the changes
to a run, besides reports, only those are asked for that neither touch the messages nor look at the
ticks. -/
structure Congruence (R : ∀ {α : Type}, Evaluation α → Evaluation α → Prop) : Prop where
  pure {α : Type} (v : α) : R (pure v : Evaluation α) (pure v)
  throw {α : Type} (halt : Halt) : R (throw halt : Evaluation α) (throw halt)
  bind {α β : Type} {x y : Evaluation α} {f g : α → Evaluation β} (hxy : R x y)
    (hfg : ∀ v, R (f v) (g v)) : R (x >>= f) (y >>= g)
  report (fault : EvaluationFault) : R (report fault) (report fault)
  modify {change : Run → Run} (hmessages : ∀ run, (change run).messages = run.messages)
    (hticks : ∀ run ticks, change { run with ticks } = { change run with ticks }) :
    R (modify change : Evaluation Unit) (modify change)
  readBinding {α : Type} {f g : Option Float → Evaluation α}
    (hfg : ∀ value?, R (f value?) (g value?)) : R (do f (← get).binding) (do g (← get).binding)
  withBinding {α : Type} {x y : Evaluation α} (hxy : R x y) (value : Float) :
    R (withBinding value x) (withBinding value y)

namespace Congruence

variable {R : ∀ {α : Type}, Evaluation α → Evaluation α → Prop}

/-- Failing with a fault is related to itself. -/
theorem fail (hR : Congruence @R) (fault : EvaluationFault) : R (fail fault) (fail fault) :=
  hR.bind (hR.report fault) fun _ => hR.pure _

/-- A value or the report of a fault is related to itself. -/
theorem ofResult (hR : Congruence @R) (result : Except EvaluationFault Quantity) :
    R (ofResult result) (ofResult result) := by
  cases result with
  | ok q => exact hR.pure q
  | error fault => exact hR.fail fault

end Congruence

end Evaluation

namespace Scope

open Evaluation

variable {R : ∀ {α : Type}, Evaluation α → Evaluation α → Prop} {s t : Scope}

/-- The quantity of a unit is related to itself. -/
theorem unitQuantity_related (hR : Congruence @R) (scope : Scope) (unit : UnitId)
    (name : String) : R (scope.unitQuantity unit name) (scope.unitQuantity unit name) := by
  unfold unitQuantity
  split
  · exact hR.fail _
  · split
    · exact hR.fail _
    · exact hR.bind (hR.modify (fun _ => rfl) fun _ _ => rfl) fun _ => hR.pure _

/-- A look at the clock takes one reading of it, and halts from the deadline on. -/
theorem run_checkDeadline (scope : Scope) (a : Run) :
    scope.checkDeadline.run a =
      (if scope.deadline ≤ scope.clock.reading a.ticks then .error .timeout else .ok (),
        { a with ticks := a.ticks + 1 }) := by
  show ((if scope.deadline ≤ scope.clock.reading a.ticks then throw .timeout
    else pure () : Evaluation Unit).run { a with ticks := a.ticks + 1 }) = _
  split <;> rfl

/-- Two scopes that differ in their units and clocks at the most, with a relation between
evaluations that holds of looking at the clock. -/
structure Related (R : ∀ {α : Type}, Evaluation α → Evaluation α → Prop) (s t : Scope) :
    Prop where
  congruence : Congruence @R
  constants_eq : s.constants = t.constants
  functions_eq : s.functions = t.functions
  settings_eq : s.settings = t.settings
  checkDeadline : R s.checkDeadline t.checkDeadline

/-- A name stands for the same in two scopes, if it stands for a unit. -/
def SameUnit (s t : Scope) (name : String) : Prop :=
  s.units.find? name = t.units.find? name ∧
    ∀ unit, s.units.find? name = some unit → s.unitQuantity unit name = t.unitQuantity unit name

/-- A name that is not bound is related to itself. -/
theorem Related.lookUp (h : s.Related @R t) {name : String} (hname : s.SameUnit t name) :
    R (s.lookUp name) (t.lookUp name) := by
  have hR := h.congruence
  obtain ⟨hfind, hquantity⟩ := hname
  unfold Scope.lookUp
  rw [← h.constants_eq, ← hfind, ← h.settings_eq]
  split
  · exact hR.pure _
  · split
    · next unit hunit =>
      rw [← hquantity unit hunit]
      exact unitQuantity_related hR s unit name
    · split
      · exact hR.pure _
      · exact hR.fail _

/-- A name stands for the value that is bound to it, if there is one. -/
theorem identifier_eq (scope : Scope) (name : String) :
    scope.identifier name = get >>= fun run =>
      (if name == "x" then run.binding else none).elim (scope.lookUp name) fun x =>
        pure (.number x) := by
  unfold identifier
  congr 1
  funext run
  cases name == "x" <;> cases run.binding <;> rfl

/-- A name is related to itself, with `x` bound or without. -/
theorem Related.identifier (h : s.Related @R t) {name : String} (hname : s.SameUnit t name) :
    R (s.identifier name) (t.identifier name) := by
  have hR := h.congruence
  have hbound (value? : Option Float) :
      R (value?.elim (s.lookUp name) fun x => return .number x)
        (value?.elim (t.lookUp name) fun x => return .number x) := by
    cases value? with
    | none => exact h.lookUp hname
    | some x => exact hR.pure _
  rw [identifier_eq, identifier_eq]
  exact hR.readBinding fun value? => hbound (if name == "x" then value? else none)

/-- A conversion is related to itself. -/
theorem Related.convert (h : s.Related @R t) (q : Quantity) {name : String}
    (hname : s.SameUnit t name) : R (s.convert q name) (t.convert q name) := by
  have hR := h.congruence
  obtain ⟨hfind, hquantity⟩ := hname
  unfold Scope.convert
  rw [← hfind]
  split
  · exact hR.pure _
  · split
    · exact hR.fail _
    · next unit hunit =>
      rw [← hquantity unit hunit]
      refine hR.bind (unitQuantity_related hR s unit name) fun target => ?_
      split
      · exact hR.pure _
      · split
        · exact hR.pure _
        · exact hR.fail _

/-- The points of a plot are related if its samples are. -/
theorem Related.samplePoints (h : s.Related @R t) {sample sample' : Evaluation Quantity}
    (hsample : R sample sample') (start width : Float) (count i : Nat)
    (points : List (Float × Float)) :
    R (s.samplePoints sample start width count i points)
      (t.samplePoints sample' start width count i points) := by
  have hR := h.congruence
  induction count generalizing i points with
  | zero => exact hR.pure _
  | succ count ih =>
    exact hR.bind h.checkDeadline fun _ => hR.bind (hR.withBinding hsample _) fun y => ih _ _

/-- A plot is related if its samples are. -/
theorem Related.plotBetween (h : s.Related @R t) (body : Expr)
    {sample sample' : Evaluation Quantity} (hsample : R sample sample')
    (lower upper steps : Float) :
    R (s.plotBetween body sample lower upper steps)
      (t.plotBetween body sample' lower upper steps) := by
  have hR := h.congruence
  have hpayload : s.plotPayload body lower upper = t.plotPayload body lower upper := by
    unfold plotPayload
    rw [h.settings_eq]
  unfold Scope.plotBetween
  rw [hpayload]
  split
  · exact hR.fail _
  · refine hR.bind (h.samplePoints hsample _ _ _ _ _) fun points => ?_
    split
    · exact hR.bind (hR.throw _) fun _ =>
        hR.bind (hR.modify (fun _ => rfl) fun _ _ => rfl) fun _ => hR.pure _
    · exact hR.bind (hR.modify (fun _ => rfl) fun _ _ => rfl) fun _ => hR.pure _

/-- The arguments of a call are related if each of them is. -/
theorem Related.evalArguments (h : s.Related @R t) (function : String) {arguments : List Expr}
    (harguments : ∀ a ∈ arguments, R (s.eval a) (t.eval a)) :
    R (s.evalArguments function arguments) (t.evalArguments function arguments) := by
  have hR := h.congruence
  induction arguments with
  | nil =>
    rw [Scope.evalArguments, Scope.evalArguments]
    exact hR.pure _
  | cons first others ih =>
    rw [Scope.evalArguments, Scope.evalArguments]
    refine hR.bind (harguments first List.mem_cons_self) fun q => ?_
    split
    · exact hR.bind (hR.report _) fun _ => hR.pure _
    · exact hR.bind (ih fun a ha => harguments a (List.mem_cons_of_mem first ha)) fun _ =>
        hR.pure _

/-- The bounds of a plot are related if each of them is. -/
theorem Related.evalBounds (h : s.Related @R t) {bounds : List Expr}
    (hbounds : ∀ a ∈ bounds, R (s.eval a) (t.eval a)) :
    R (s.evalBounds bounds) (t.evalBounds bounds) := by
  have hR := h.congruence
  induction bounds with
  | nil =>
    rw [Scope.evalBounds, Scope.evalBounds]
    exact hR.pure _
  | cons first others ih =>
    rw [Scope.evalBounds, Scope.evalBounds]
    refine hR.bind (hbounds first List.mem_cons_self) fun q => ?_
    split
    · exact hR.bind (hR.report _) fun _ => hR.pure _
    · exact hR.bind (ih fun a ha => hbounds a (List.mem_cons_of_mem first ha)) fun _ => hR.pure _

/-- A call of `plot` is related if its arguments are. -/
theorem Related.plot (h : s.Related @R t) {arguments : List Expr}
    (harguments : ∀ a ∈ arguments, R (s.eval a) (t.eval a)) :
    R (s.plot arguments) (t.plot arguments) := by
  have hR := h.congruence
  cases arguments with
  | nil =>
    rw [Scope.plot, Scope.plot]
    exact hR.fail _
  | cons body bounds =>
    have hbody := harguments body List.mem_cons_self
    have hbounds := h.evalBounds fun a ha => harguments a (List.mem_cons_of_mem body ha)
    rw [Scope.plot, Scope.plot]
    split
    · refine hR.bind hbounds fun values => ?_
      split
      · exact h.plotBetween body hbody _ _ _
      · exact h.plotBetween body hbody _ _ _
      · exact hR.pure _
    · exact hR.fail _

/-- An expression is related to itself if all of its names are. -/
theorem Related.eval (h : s.Related @R t) {e : Expr}
    (hnames : ∀ name ∈ e.mentions, s.SameUnit t name) : R (s.eval e) (t.eval e) := by
  have hR := h.congruence
  induction e using Expr.induction with
  | number value =>
    rw [Scope.eval, Scope.eval]
    exact hR.bind h.checkDeadline fun _ => hR.pure _
  | name label =>
    rw [Scope.eval, Scope.eval]
    exact hR.bind h.checkDeadline fun _ => h.identifier (hnames label (by simp [Expr.mentions]))
  | neg operand ih =>
    rw [Scope.eval, Scope.eval]
    exact hR.bind h.checkDeadline fun _ => hR.bind (ih hnames) fun q => hR.pure _
  | binary op left right ihleft ihright =>
    rw [Expr.mentions] at hnames
    have hleft := ihleft fun name hname => hnames name (List.mem_append_left _ hname)
    have hright := ihright fun name hname => hnames name (List.mem_append_right _ hname)
    rw [Scope.eval, Scope.eval]
    exact hR.bind h.checkDeadline fun _ => hR.bind hleft fun l => hR.bind hright fun r =>
      hR.ofResult _
  | call function arguments ih =>
    have harguments : ∀ a ∈ arguments, R (s.eval a) (t.eval a) := fun a ha =>
      ih a ha fun name hname => hnames name (Expr.mem_mentionsAll ha hname)
    rw [Scope.eval, Scope.eval, ← h.functions_eq]
    refine hR.bind h.checkDeadline fun _ => ?_
    split
    · exact h.plot harguments
    · split
      · exact hR.fail _
      · split
        · refine hR.bind (h.evalArguments function harguments) fun values? => ?_
          split
          · exact hR.pure _
          · unfold applyFunction
            rw [h.settings_eq]
            exact hR.pure _
        · exact hR.fail _
  | convert operand unit ih =>
    rw [Expr.mentions] at hnames
    have hoperand := ih fun name hname => hnames name (List.mem_append_left _ hname)
    have hunit := hnames unit (List.mem_append_right _ List.mem_cons_self)
    rw [Scope.eval, Scope.eval]
    exact hR.bind h.checkDeadline fun _ => hR.bind hoperand fun q => h.convert q hunit

end Scope

end Reckoner
