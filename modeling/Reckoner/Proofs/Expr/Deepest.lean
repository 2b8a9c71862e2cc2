import Reckoner.Proofs.Expr.Depth
import Reckoner.Proofs.Expr.EchoReading

/-!
# The deepest expressions that are read

A tree that is read nests fewer than `maxDepth` charged nodes, but its paths pass other nodes as
well. This file builds trees that reach the bound on all nodes of a path. Each of their levels holds
a call and a power, and as many products and sums before a conversion as the level admits.
-/

namespace Reckoner.Expr

open Reckoner.Expr.Parser

/-- The most nodes on a path of a tree that is read within `maxDepth` levels. -/
def maxPathLength : Nat :=
  maxDepth * maxDepth + 2 * (maxDepth - 1) + 1

/-- The operator by which the chains of this file are continued. -/
def Chain.joiner : Chain → Operator
  | .factors => .mul
  | .summands => .add

/-- The joiner of a chain belongs to it. -/
@[simp] theorem Chain.chain?_joiner (kind : Chain) : kind.joiner.chain? = some kind := by
  cases kind <;> rfl

/-- An operand to which the same name is joined again and again. -/
def joined (kind : Chain) (e : Expr) : Nat → Expr
  | 0 => e
  | count + 1 => .binary kind.joiner (joined kind e count) (.name "x")

/-- A product that begins with an operand, then a sum that begins with the product, and a conversion
of the sum. -/
def converted (e : Expr) (count : Nat) : Expr :=
  .convert (joined .summands (joined .factors e count) count) "m"

/-- Calls that are raised to powers, each around the longest conversion that its level admits. -/
def nested : Nat → Expr
  | 0 => .call "f" []
  | n + 1 => .binary .pow (.call "f" [converted (nested n) n]) (.name "x")

/-- The canonical text of a tree is read as the tree itself within some levels, and the tree has a
path of some length with all but one of the levels charged on it. -/
structure ReadsAsItself (e : Expr) (n length : Nat) : Prop where
  everywhere : e.Everywhere fun s => s.Legible ∧ s.keepsMeaning = true
  levels_le : e.levels 0 ≤ n
  reread_eq : e.reread = e
  reaches : ∃ path, Path e path ∧ charged path + 1 = n ∧ path.length = length

/-- A tree may begin a chain: it ends without a conversion and stands there without parentheses. -/
structure Heads (kind : Chain) (e : Expr) : Prop where
  trailingUnit_eq : e.trailingUnit = none
  parens_eq : parenthesizesLeft kind.joiner e = false

/-- The name that is joined to other operands may be written and read. -/
theorem everywhere_x : (Expr.name "x").Everywhere fun s => s.Legible ∧ s.keepsMeaning = true := by
  have hname : Token.IsName "x".toList := ⟨by decide, by simp⟩
  exact .name ⟨⟨hname, 'x', [], rfl, by decide⟩, rfl⟩

/-- A tree that ends without a conversion is read as what is read where nothing stands before it. -/
theorem reread_of_trailingUnit {e : Expr} (hunit : e.trailingUnit = none) :
    e.reread = e.place .nothing := by
  rw [reread, hunit, close]

section joined

variable {kind : Chain} {e : Expr} {n length : Nat}

/-- A chain may be continued. -/
theorem Heads.joined (he : Heads kind e) (count : Nat) : Heads kind (joined kind e count) := by
  cases count with
  | zero => exact he
  | succ count => cases kind <;> exact ⟨rfl, rfl⟩

/-- Every operand that is joined adds an operator to the chain. -/
theorem chainLength_joined (he : Heads kind e) (hlength : e.chainLength kind = 0) (count : Nat) :
    (Expr.joined kind e count).chainLength kind = count := by
  induction count with
  | zero => exact hlength
  | succ count ih =>
    rw [Expr.joined, chainLength, if_pos kind.chain?_joiner, (he.joined count).parens_eq, ih]
    simp [enclosedLength, chainLength]

/-- An operand that is joined takes a level more than there are operators before it. -/
theorem levels_joined_succ (he : Heads kind e) (hlength : e.chainLength kind = 0) (count : Nat) :
    (Expr.joined kind e (count + 1)).levels 0 =
      max ((Expr.joined kind e count).levels 0) (count + 2) := by
  have hright : parenthesizesRight kind.joiner (.name "x") = false := rfl
  simp only [Expr.joined, levels, kind.chain?_joiner, (he.joined count).parens_eq, hright,
    chainLength_joined he hlength count, enclosedLevels, enclosedLength]
  simp

/-- Joining operands to a tree takes no more levels than one more than they are. -/
theorem ReadsAsItself.joined (he : e.ReadsAsItself (n + 1) length) (hheads : Heads kind e)
    (hlength : e.chainLength kind = 0) {count : Nat} (hcount : count ≤ n) :
    (joined kind e count).ReadsAsItself (n + 1) (length + count) := by
  induction count with
  | zero => exact he
  | succ count ih =>
    have hleft := ih (by omega)
    have hinner := hheads.joined count
    have hplace := hleft.reread_eq
    rw [reread_of_trailingUnit hinner.trailingUnit_eq] at hplace
    obtain ⟨path, hpath, hcharged, hreaches⟩ := hleft.reaches
    constructor
    · refine .binary ⟨trivial, ?_⟩ hleft.everywhere everywhere_x
      rw [keepsMeaning, hinner.parens_eq, hinner.trailingUnit_eq]
      cases kind <;> rfl
    · have hlevels := hleft.levels_le
      rw [levels_joined_succ hheads hlength]
      omega
    · rw [reread_of_trailingUnit (hheads.joined (count + 1)).trailingUnit_eq, Expr.joined,
        place_binary kind.chain?_joiner _ _ (by simp [Before.nothing]), hinner.parens_eq]
      have hright : parenthesizesRight kind.joiner (.name "x") = false := rfl
      simp [Operand.place, enclosedPlace, hright, hplace, place, Before.attach, negated]
    · refine ⟨.leftOperand :: path, .leftOperand _ _ hpath, ?_, ?_⟩
      · simpa [Step.isCharged] using hcharged
      · rw [List.length_cons, hreaches]
        omega

end joined

/-- An operand of a power or a call may begin a chain. -/
theorem heads_nested (kind : Chain) (n : Nat) : Heads kind (nested n) := by
  cases kind <;> cases n <;> exact ⟨rfl, rfl⟩

/-- An operand of a power or a call is no chain. -/
theorem chainLength_nested (kind : Chain) (n : Nat) : (nested n).chainLength kind = 0 := by
  cases n <;> rfl

/-- A product is no sum. -/
theorem chainLength_summands_joined_factors (n count : Nat) :
    (joined .factors (nested n) count).chainLength .summands = 0 := by
  cases count with
  | zero => exact chainLength_nested .summands n
  | succ count => rfl

/-- A product may begin a sum. -/
theorem heads_joined_factors (n count : Nat) :
    Heads .summands (joined .factors (nested n) count) := by
  cases count with
  | zero => exact heads_nested .summands n
  | succ count => exact ⟨rfl, rfl⟩

/-- The conversion around an operand of a level is read within that level. -/
theorem ReadsAsItself.converted {n length : Nat} (he : (nested n).ReadsAsItself (n + 1) length) :
    (converted (nested n) n).ReadsAsItself (n + 1) (length + n + n + 1) := by
  have hproduct := he.joined (heads_nested .factors n) (chainLength_nested .factors n) le_rfl
  have hheads := heads_joined_factors n n
  have hsum := hproduct.joined hheads (chainLength_summands_joined_factors n n) le_rfl
  have hend := (hheads.joined n).trailingUnit_eq
  have hname : Token.IsName "m".toList := ⟨by decide, by simp⟩
  obtain ⟨path, hpath, hcharged, hreaches⟩ := hsum.reaches
  constructor
  · refine .convert ⟨hname, ?_⟩ hsum.everywhere
    rw [keepsMeaning, hend]
    rfl
  · exact hsum.levels_le
  · have hplace := hsum.reread_eq
    rw [reread_of_trailingUnit hend] at hplace
    rw [Expr.converted, reread, trailingUnit, place, hplace, close]
  · refine ⟨.conversion :: path, .conversion _ hpath, ?_, ?_⟩
    · simpa [Step.isCharged] using hcharged
    · rw [List.length_cons, hreaches]

/-- The operands of a level are read within it, and their paths are as long as a square. -/
theorem readsAsItself_nested (n : Nat) : (nested n).ReadsAsItself (n + 1) ((n + 1) * (n + 1)) := by
  induction n with
  | zero =>
    have hname : Token.IsName "f".toList := ⟨by decide, by simp⟩
    exact {
      everywhere := .call ⟨⟨hname, 'f', [], rfl, by decide⟩, rfl⟩ (by simp)
      levels_le := le_rfl
      reread_eq := rfl
      reaches := ⟨_, .emptyCall "f", rfl, rfl⟩ }
  | succ n ih =>
    have hargument := ih.converted
    have hname : Token.IsName "f".toList := ⟨by decide, by simp⟩
    obtain ⟨path, hpath, hcharged, hreaches⟩ := hargument.reaches
    constructor
    · refine .binary ⟨trivial, rfl⟩ (.call ⟨⟨hname, 'f', [], rfl, by decide⟩, rfl⟩ ?_) everywhere_x
      intro a ha
      rw [List.mem_singleton.mp ha]
      exact hargument.everywhere
    · have hlevels := hargument.levels_le
      show 0 + max (0 + (max ((converted (nested n) n).levels 0) 0 + 1)) (0 + 1 + 1) ≤ n + 1 + 1
      omega
    · have hreread := hargument.reread_eq
      show Expr.binary .pow (.call "f" [(converted (nested n) n).reread]) (.name "x") = _
      rw [hreread, nested]
    · refine ⟨.leftOperand :: .argument :: path,
        .leftOperand _ _ (.argument _ List.mem_cons_self hpath), ?_, ?_⟩
      · simpa [Step.isCharged] using hcharged
      · rw [List.length_cons, List.length_cons, hreaches]
        ring

/-- The paths of what is read have fewer charged nodes than there are levels. -/
theorem path_of_parse {text : String} {e : Expr} (hparse : parse text = .ok e) {path : List Step}
    (hpath : Path e path) : charged path < maxDepth ∧ path.length ≤ maxPathLength := by
  obtain ⟨hpos, hwithin⟩ := pathsWithin_of_parseWithin hparse
  obtain ⟨hcharged, hlength⟩ := hwithin path hpath
  exact ⟨by omega, hlength⟩

/-- There is a text whose tree has a path that is as long as any may be, and charged as often. -/
theorem exists_maxPathLength : ∃ text e path, parse text = .ok e ∧ Path e path ∧
    charged path + 1 = maxDepth ∧ path.length = maxPathLength := by
  have hdeepest := (readsAsItself_nested (maxDepth - 1)).converted
  obtain ⟨path, hpath, hcharged, hlength⟩ := hdeepest.reaches
  have hlevels : (converted (nested (maxDepth - 1)) (maxDepth - 1)).levels 0 ≤ maxDepth :=
    hdeepest.levels_le
  have hread := parse_echo hdeepest.everywhere
  rw [within, if_pos hlevels, hdeepest.reread_eq] at hread
  exact ⟨_, _, path, hread, hpath, hcharged, hlength.trans rfl⟩

/-- What an allowance reads is read within `maxDepth` levels as the same tree, or nests too
deeply. -/
theorem parse_of_parseWithin {allowance : Nat} {text : String} {e : Expr}
    (hread : parseWithin allowance text = .ok e) :
    parse text = .ok e ∨ parse text = .error .tooDeep := by
  rcases Nat.le_total allowance maxDepth with hle | hle
  · rcases parseWithin_outgrown hle text with hdeep | hsame
    · rw [hdeep] at hread
      cases hread
    · exact .inl (hsame.symm.trans hread)
  · rcases parseWithin_outgrown hle text with hdeep | hsame
    · exact .inr hdeep
    · exact .inl (hsame.trans hread)

/-- What the limit on nesting means for the paths of a tree, however many levels it takes to read.
The text is read as that tree, with fewer than `maxDepth` charged nodes on the path and no more than
`maxPathLength` nodes in all, or it is refused, as it is where the path is beyond these bounds. Some
path reaches both of them. -/
theorem parse_bounds_paths {allowance : Nat} {text : String} {e : Expr} {path : List Step}
    (hread : parseWithin allowance text = .ok e) (hpath : Path e path) :
    (parse text = .ok e ∨ parse text = .error .tooDeep) ∧
      (parse text = .ok e → charged path < maxDepth ∧ path.length ≤ maxPathLength ∧
        (path.length ≤ charged path + 1 → path.length ≤ maxDepth)) ∧
      (maxDepth ≤ charged path ∨ maxPathLength < path.length → parse text = .error .tooDeep) ∧
      ∃ text' e' path', parse text' = .ok e' ∧ Path e' path' ∧
        charged path' + 1 = maxDepth ∧ path'.length = maxPathLength := by
  have houtcome := parse_of_parseWithin hread
  refine ⟨houtcome, fun hparse => ?_, fun hbeyond => ?_, exists_maxPathLength⟩
  · obtain ⟨hcharged, hlength⟩ := path_of_parse hparse hpath
    exact ⟨hcharged, hlength, fun huncharged => by omega⟩
  · rcases houtcome with hparse | hdeep
    · have hbounds := path_of_parse hparse hpath
      omega
    · exact hdeep

/-- A sign and the right operand of a sum are charged, a conversion is not. -/
theorem parse_bounds_paths_sum :
    let e := Expr.convert (.neg (.binary .add (.name "x") (.name "y"))) "m"
    let path := [Step.conversion, .sign, .rightOperand]
    parseWithin 4 "-(x + y) to m" = .ok e ∧ Path e path ∧ parse "-(x + y) to m" = .ok e ∧
      charged path < maxDepth ∧ path.length ≤ maxPathLength ∧ path.length ≤ maxDepth := by
  intro e path
  have hread : parseWithin 4 "-(x + y) to m" = .ok e := by decide +kernel
  have hparse : parse "-(x + y) to m" = .ok e := by decide +kernel
  have hpath : Path e path := .conversion _ (.sign (.rightOperand _ _ (.name "y")))
  obtain ⟨-, hbounds, -⟩ := parse_bounds_paths hread hpath
  obtain ⟨hcharged, hlength, hlimit⟩ := hbounds hparse
  exact ⟨hread, hpath, hparse, hcharged, hlength, hlimit (by decide)⟩

end Reckoner.Expr
