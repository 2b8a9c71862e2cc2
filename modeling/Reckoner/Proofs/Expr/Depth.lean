import Reckoner.Proofs.Expr.Allowance
import Mathlib.Tactic.Ring

/-!
# How deep an expression nests

The reader charges a level for a sign, for an argument of a call and for an operator whose right
operand it goes into. A conversion takes none, and neither does an operator that is left by its left
operand, since that operand was read before the operator was seen. This file counts both kinds of
nodes along the paths of a tree. An allowance of `n` levels admits paths with fewer than `n` charged
nodes, but of up to `n ^ 2 + 2 * n - 1` nodes in all, and no fewer than that are reached.
-/

namespace Reckoner.Expr

/-- A step of a path from the root of a tree to a leaf: the inner node that it passes, and the way
by which it leaves it. -/
inductive Step where
  | sign
  | leftOperand
  | rightOperand
  | argument
  /-- a call without arguments, at which a path ends -/
  | emptyCall
  | conversion
deriving DecidableEq

/-- Whether reading on past a node takes a level of its own. -/
def Step.isCharged : Step → Bool
  | .sign | .rightOperand | .argument => true
  | .leftOperand | .emptyCall | .conversion => false

/-- The paths of a tree from its root to a leaf, by the inner nodes that they pass. -/
inductive Path : Expr → List Step → Prop where
  | number (value : Float) : Path (.number value) []
  | name (label : String) : Path (.name label) []
  | sign {e : Expr} {path : List Step} (hpath : Path e path) : Path (.neg e) (.sign :: path)
  | leftOperand (op : Operator) {left : Expr} (right : Expr) {path : List Step}
      (hpath : Path left path) : Path (.binary op left right) (.leftOperand :: path)
  | rightOperand (op : Operator) (left : Expr) {right : Expr} {path : List Step}
      (hpath : Path right path) : Path (.binary op left right) (.rightOperand :: path)
  | argument (function : String) {arguments : List Expr} {e : Expr} {path : List Step}
      (hmem : e ∈ arguments) (hpath : Path e path) :
      Path (.call function arguments) (.argument :: path)
  | emptyCall (function : String) : Path (.call function []) [.emptyCall]
  | conversion {e : Expr} (unit : String) {path : List Step} (hpath : Path e path) :
      Path (.convert e unit) (.conversion :: path)

/-- The number of nodes on a path that are charged. -/
def charged (path : List Step) : Nat :=
  path.countP Step.isCharged

/-- The path at a leaf passes no node. -/
@[simp] theorem charged_nil : charged [] = 0 := rfl

/-- A step adds its own charge to that of the path below. -/
@[simp] theorem charged_cons (step : Step) (path : List Step) :
    charged (step :: path) = charged path + if step.isCharged then 1 else 0 :=
  List.countP_cons ..

/-- On every path at most `c` nodes are charged, and no path is longer than `d`. -/
def PathsWithin (e : Expr) (c d : Nat) : Prop :=
  ∀ path, Path e path → charged path ≤ c ∧ path.length ≤ d

namespace PathsWithin

variable {e left right : Expr} {c d : Nat}

/-- A bound may be loosened. -/
theorem mono (he : e.PathsWithin c d) {c' d' : Nat} (hc : c ≤ c') (hd : d ≤ d') :
    e.PathsWithin c' d' := by
  intro path hpath
  have h := he path hpath
  omega

/-- A sign is charged. -/
theorem neg (he : e.PathsWithin c d) : (Expr.neg e).PathsWithin (c + 1) (d + 1) := by
  intro path hpath
  cases hpath with
  | sign hpath =>
    have h := he _ hpath
    simpa [Step.isCharged] using h

/-- An operator is charged on the way to its right operand only. -/
theorem binary {op : Operator} (hleft : left.PathsWithin (c + 1) d)
    (hright : right.PathsWithin c d) :
    (Expr.binary op left right).PathsWithin (c + 1) (d + 1) := by
  intro path hpath
  cases hpath with
  | leftOperand _ _ hpath =>
    have h := hleft _ hpath
    simpa [Step.isCharged] using h
  | rightOperand _ _ hpath =>
    have h := hright _ hpath
    simpa [Step.isCharged] using h

/-- A call is charged on the way to an argument. -/
theorem call {function : String} {arguments : List Expr}
    (harguments : ∀ a ∈ arguments, a.PathsWithin c d) :
    (Expr.call function arguments).PathsWithin (c + 1) (d + 1) := by
  intro path hpath
  cases hpath with
  | argument _ hmem hpath =>
    have h := harguments _ hmem _ hpath
    simpa [Step.isCharged] using h
  | emptyCall => simp [Step.isCharged]

/-- A conversion is not charged. -/
theorem convert {unit : String} (he : e.PathsWithin c d) :
    (Expr.convert e unit).PathsWithin c (d + 1) := by
  intro path hpath
  cases hpath with
  | conversion _ hpath =>
    have h := he _ hpath
    simpa [Step.isCharged] using h

end PathsWithin

/-- The longest path of an operand of a chain that is read within `n` levels. -/
def Chain.operandLength : Chain → Nat → Nat
  | .factors, n => n * n
  | .summands, n => n * n + (n - 1)

/-- What an allowance means for the paths of a phrase. For the rest of a chain it depends on the
left part, whose bounds are given. -/
def Phrase.Within : Phrase → Nat → Expr → Prop
  | .signed, n, e => 0 < n ∧ e.PathsWithin (n - 1) (n * n)
  | .power, n, e => e.PathsWithin n ((n + 1) * (n + 1))
  | .primary, n, e => e.PathsWithin n (max 1 (n * n + 2 * n))
  | .chain kind, n, e => 0 < n ∧ e.PathsWithin (n - 1) (kind.operandLength n + (n - 1))
  | .more kind left, n, e =>
      ∀ c d, left.PathsWithin c d → n - 1 ≤ c → kind.operandLength (n - 1) ≤ d →
        e.PathsWithin c (d + (n - 1))
  | .conversion, n, e => 0 < n ∧ e.PathsWithin (n - 1) (n * n + 2 * (n - 1) + 1)

/-- The operand of a chain stays within its bounds. -/
theorem Chain.within_operand {kind : Chain} {n : Nat} {e : Expr}
    (h : kind.operand.Within n e) : 0 < n ∧ e.PathsWithin (n - 1) (kind.operandLength n) := by
  cases kind <;> exact h

/-- Operands that are read within fewer levels have shorter paths. -/
theorem Chain.operandLength_mono (kind : Chain) {n m : Nat} (hnm : n ≤ m) :
    kind.operandLength n ≤ kind.operandLength m := by
  have hsquare : n * n ≤ m * m := Nat.mul_le_mul hnm hnm
  cases kind
  · exact hsquare
  · simp only [operandLength]
    omega

/-- What is derived within an allowance stays within the bounds of its phrase. -/
theorem Derives.within {phrase : Phrase} {n : Nat} {text rest : List Char} {e : Expr}
    (h : Derives phrase n text e rest) : phrase.Within n e := by
  induction h with
  | @minus n _ _ _ _ _ _ ih =>
    obtain ⟨hn, hpaths⟩ := ih
    have hsquare : (n + 1) * (n + 1) = n * n + 2 * n + 1 := by ring
    exact ⟨n.succ_pos, hpaths.neg.mono (by omega) (by omega)⟩
  | @plus n _ _ _ _ _ _ ih =>
    obtain ⟨hn, hpaths⟩ := ih
    have hsquare : (n + 1) * (n + 1) = n * n + 2 * n + 1 := by ring
    exact ⟨n.succ_pos, hpaths.mono (by omega) (by omega)⟩
  | bare _ ih => exact ⟨Nat.succ_pos _, ih⟩
  | @unraised n _ _ _ _ _ ih =>
    have hsquare : (n + 1) * (n + 1) = n * n + 2 * n + 1 := by ring
    exact ih.mono le_rfl (by omega)
  | @raised n _ _ _ _ _ _ _ _ _ ihbase ihexponent =>
    obtain ⟨hn, hexponent⟩ := ihexponent
    have hsquare : (n + 1) * (n + 1) = n * n + 2 * n + 1 := by ring
    refine PathsWithin.mono (.binary (c := n - 1) (d := n * n + 2 * n) ?_ ?_) ?_ ?_
    · exact ihbase.mono (by omega) (by omega)
    · exact hexponent.mono le_rfl (by omega)
    · omega
    · omega
  | @enclosed n _ _ _ _ _ _ _ _ ih =>
    obtain ⟨hn, hinner⟩ := ih
    exact hinner.mono (by omega) (by omega)
  | number =>
    intro path hpath
    cases hpath
    simp
  | name =>
    intro path hpath
    cases hpath
    simp
  | @call n _ _ _ _ _ _ _ _ _ _ _ segments _ _ ih =>
    cases segments with
    | nil =>
      intro path hpath
      cases hpath with
      | argument _ hmem _ => simp at hmem
      | emptyCall => simp [Step.isCharged]
    | cons first others =>
      have hn : 0 < n := (ih first (by simp)).1
      refine PathsWithin.mono (.call (c := n - 1) (d := n * n + 2 * (n - 1) + 1) ?_) ?_ ?_
      · intro a ha
        obtain ⟨s, hs, rfl⟩ := List.mem_map.mp ha
        exact (ih s hs).2
      · omega
      · omega
  | chain _ _ ihleft ihmore =>
    obtain ⟨hn, hleft⟩ := Chain.within_operand ihleft
    exact ⟨hn, ihmore _ _ hleft le_rfl (Chain.operandLength_mono _ (by omega))⟩
  | done =>
    intro c d hleft _ _
    exact hleft.mono le_rfl (by omega)
  | @joined n kind _ _ _ _ op left right _ _ _ _ ihright ihmore =>
    obtain ⟨hn, hright⟩ := Chain.within_operand ihright
    intro c d hleft hc hd
    simp only [Nat.add_sub_cancel] at hc hd
    have hoperand := kind.operandLength_mono (show n - 1 ≤ n by omega)
    -- The operator adds its node to the left part, which the rest of the chain then extends.
    have hjoined : (Expr.binary op left right).PathsWithin (c - 1 + 1) (d + 1) :=
      .binary (hleft.mono (by omega) le_rfl) (hright.mono (by omega) hd)
    have hrest := ihmore c (d + 1) (hjoined.mono (by omega) le_rfl) (by omega) (by omega)
    exact hrest.mono le_rfl (by omega)
  | @unconverted n _ _ _ _ _ ih =>
    obtain ⟨hn, hsum⟩ := ih
    refine ⟨hn, hsum.mono le_rfl ?_⟩
    simp only [Chain.operandLength]
    omega
  | @converted n _ _ _ _ _ _ _ _ _ _ ih =>
    obtain ⟨hn, hsum⟩ := ih
    refine ⟨hn, hsum.convert.mono le_rfl ?_⟩
    simp only [Chain.operandLength]
    omega

/-- The paths of what is read within an allowance. -/
theorem pathsWithin_of_parseWithin {n : Nat} {text : String} {e : Expr}
    (hok : parseWithin n text = .ok e) :
    0 < n ∧ e.PathsWithin (n - 1) (n * n + 2 * (n - 1) + 1) := by
  obtain ⟨start, rest, hderives⟩ := derives_of_parseWithin hok
  exact hderives.within

end Reckoner.Expr
