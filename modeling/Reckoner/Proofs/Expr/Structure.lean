import Reckoner.Expr

/-!
# The structure of expressions

Induction over expressions, the decision whether two of them are equal, the names that they refer
to, and conditions on single nodes that are asked of an expression and of all expressions inside of
it.
-/

namespace Reckoner.Expr

/-- Induction over an expression, with one case for all arguments of a call. -/
theorem induction {motive : Expr → Prop} (number : ∀ value, motive (.number value))
    (name : ∀ label, motive (.name label)) (neg : ∀ e, motive e → motive (.neg e))
    (binary : ∀ op left right, motive left → motive right → motive (.binary op left right))
    (call : ∀ function arguments, (∀ a ∈ arguments, motive a) → motive (.call function arguments))
    (convert : ∀ e unit, motive e → motive (.convert e unit)) (e : Expr) : motive e :=
  match e with
  | .number value => number value
  | .name label => name label
  | .neg e => neg e (induction number name neg binary call convert e)
  | .binary op left right =>
      binary op left right (induction number name neg binary call convert left)
        (induction number name neg binary call convert right)
  | .call function arguments =>
      call function arguments fun a _ => induction number name neg binary call convert a
  | .convert e unit => convert e unit (induction number name neg binary call convert e)

mutual

/-- Compares two expressions. Numbers are compared by their patterns. -/
def same : Expr → Expr → Bool
  | .number a, .number b => decide (a = b)
  | .name a, .name b => a == b
  | .neg a, .neg b => same a b
  | .binary op a b, .binary op' c d => op == op' && same a c && same b d
  | .call f as, .call g bs => f == g && sameAll as bs
  | .convert a u, .convert b v => same a b && u == v
  | _, _ => false

/-- Compares two lists of expressions. -/
def sameAll : List Expr → List Expr → Bool
  | [], [] => true
  | a :: as, b :: bs => same a b && sameAll as bs
  | _, _ => false

end

/-- Lists are equal just when they are found to be, if that holds of their members. -/
theorem sameAll_iff {as : List Expr} (heach : ∀ a ∈ as, ∀ b, same a b = true ↔ a = b)
    (bs : List Expr) : sameAll as bs = true ↔ as = bs := by
  induction as generalizing bs with
  | nil => cases bs <;> simp [sameAll]
  | cons a as ih =>
    cases bs with
    | nil => simp [sameAll]
    | cons b bs =>
      have hothers := ih (fun a' ha => heach a' (List.mem_cons_of_mem a ha)) bs
      simp [sameAll, heach a List.mem_cons_self b, hothers]

/-- Expressions are equal just when they are found to be. -/
theorem same_iff (a b : Expr) : same a b = true ↔ a = b := by
  induction a using Expr.induction generalizing b with
  | number => cases b <;> simp [same]
  | name => cases b <;> simp [same]
  | neg a ih => cases b <;> simp [same, ih]
  | binary op l r ihl ihr => cases b <;> simp [same, ihl, ihr, and_assoc]
  | call f as ih => cases b <;> simp [same, sameAll_iff ih]
  | convert a u ih => cases b <;> simp [same, ih]

instance : DecidableEq Expr :=
  fun a b => decidable_of_iff _ (same_iff a b)

mutual

/-- The names that an expression refers to, those of the units that it converts to among them. -/
def mentions : Expr → List String
  | .number _ => []
  | .name label => [label]
  | .neg e => e.mentions
  | .binary _ left right => left.mentions ++ right.mentions
  | .call _ arguments => mentionsAll arguments
  | .convert e unit => e.mentions ++ [unit]

/-- The names that some expressions refer to. -/
def mentionsAll : List Expr → List String
  | [] => []
  | e :: others => e.mentions ++ mentionsAll others

end

/-- What one of some expressions refers to, all of them refer to. -/
theorem mem_mentionsAll {e : Expr} {es : List Expr} (he : e ∈ es) {name : String}
    (hname : name ∈ e.mentions) : name ∈ mentionsAll es := by
  induction es with
  | nil => cases he
  | cons first others ih =>
    rw [mentionsAll, List.mem_append]
    rcases List.mem_cons.mp he with rfl | hothers
    · exact .inl hname
    · exact .inr (ih hothers)

/-- A condition holds of an expression and of every expression inside of it. -/
inductive Everywhere (p : Expr → Prop) : Expr → Prop where
  | number {value : Float} (here : p (.number value)) : Everywhere p (.number value)
  | name {label : String} (here : p (.name label)) : Everywhere p (.name label)
  | neg {e : Expr} (here : p (.neg e)) (operand : Everywhere p e) : Everywhere p (.neg e)
  | binary {op : Operator} {left right : Expr} (here : p (.binary op left right))
      (leftOperand : Everywhere p left) (rightOperand : Everywhere p right) :
      Everywhere p (.binary op left right)
  | call {function : String} {arguments : List Expr} (here : p (.call function arguments))
      (each : ∀ a ∈ arguments, Everywhere p a) : Everywhere p (.call function arguments)
  | convert {e : Expr} {unit : String} (here : p (.convert e unit)) (operand : Everywhere p e) :
      Everywhere p (.convert e unit)

namespace Everywhere

variable {p q : Expr → Prop} {e : Expr}

/-- The condition holds of the expression itself. -/
theorem here (he : e.Everywhere p) : p e := by
  cases he <;> assumption

/-- A condition that every expression satisfies holds everywhere in each of them. -/
theorem of_forall (hall : ∀ s, p s) (e : Expr) : e.Everywhere p := by
  induction e using Expr.induction with
  | number => exact .number (hall _)
  | name => exact .name (hall _)
  | neg _ ih => exact .neg (hall _) ih
  | binary _ _ _ ihleft ihright => exact .binary (hall _) ihleft ihright
  | call _ _ ih => exact .call (hall _) ih
  | convert _ _ ih => exact .convert (hall _) ih

/-- A weaker condition holds as well. -/
theorem mono (he : e.Everywhere p) (himp : ∀ s, p s → q s) : e.Everywhere q := by
  induction he with
  | number here => exact .number (himp _ here)
  | name here => exact .name (himp _ here)
  | neg here _ ih => exact .neg (himp _ here) ih
  | binary here _ _ ihleft ihright => exact .binary (himp _ here) ihleft ihright
  | call here _ ih => exact .call (himp _ here) ih
  | convert here _ ih => exact .convert (himp _ here) ih

/-- The condition holds everywhere inside of each expression inside. -/
theorem nested (he : e.Everywhere p) : e.Everywhere fun s => s.Everywhere p := by
  induction he with
  | number here => exact .number (.number here)
  | name here => exact .name (.name here)
  | neg here operand ih => exact .neg (.neg here operand) ih
  | binary here left right ihleft ihright => exact .binary (.binary here left right) ihleft ihright
  | call here each ih => exact .call (.call here each) ih
  | convert here operand ih => exact .convert (.convert here operand) ih

/-- Two conditions hold together. -/
theorem and (hp : e.Everywhere p) (hq : e.Everywhere q) :
    e.Everywhere fun s => p s ∧ q s := by
  induction hp with
  | number here => exact .number ⟨here, hq.here⟩
  | name here => exact .name ⟨here, hq.here⟩
  | neg here _ ih =>
    have hhere := hq.here
    cases hq with
    | neg _ operand => exact .neg ⟨here, hhere⟩ (ih operand)
  | binary here _ _ ihleft ihright =>
    have hhere := hq.here
    cases hq with
    | binary _ left right => exact .binary ⟨here, hhere⟩ (ihleft left) (ihright right)
  | call here _ ih =>
    have hhere := hq.here
    cases hq with
    | call _ each => exact .call ⟨here, hhere⟩ fun a ha => ih a ha (each a ha)
  | convert here _ ih =>
    have hhere := hq.here
    cases hq with
    | convert _ operand => exact .convert ⟨here, hhere⟩ (ih operand)

end Everywhere

end Reckoner.Expr
