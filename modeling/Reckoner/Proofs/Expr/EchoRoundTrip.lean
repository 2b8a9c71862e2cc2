import Reckoner.Proofs.Expr.Allowance
import Reckoner.Proofs.Expr.Meaning

/-!
# Reading a canonical text back

Every tree that is read has names, units and numbers that can be written again. Its canonical text
is read back as a tree of the same value, provided that the text keeps the meaning of every node and
takes no more levels than there are.
-/

namespace Reckoner.Expr

open Reckoner.Expr.Parser Reckoner.Text Reckoner.Token

/-- The names, units and numbers of a node are such as are read. -/
def WasRead : Expr → Prop
  | .number value => ∃ d : Decimal, value = d.toFloat
  | .name label => IsWord label.toList
  | .call function _ => IsWord function.toList
  | .convert _ unit => IsName unit.toList
  | _ => True

/-- A number literal is finite. -/
def IsFinite : Expr → Prop
  | .number value => rational? value ≠ none
  | _ => True

/-- What was read with finite numbers can be written and read again. -/
theorem legible_of_wasRead {e : Expr} (hread : e.WasRead) (hfinite : e.IsFinite) : e.Legible := by
  cases e with
  | number value =>
    obtain ⟨d, rfl⟩ := hread
    rcases d.ofFloat_toFloat with hinfinite | hvalue
    · simp [IsFinite, rational?, hinfinite] at hfinite
    · exact hvalue
  | name label => exact hread
  | call function arguments => exact hread
  | convert e unit => exact hread
  | neg e => trivial
  | binary op left right => trivial

/-- All nodes of what a phrase derives were read, if those of the left part before it were. -/
theorem Derives.everywhere_wasRead {phrase : Phrase} {n : Nat} {text rest : List Char} {e : Expr}
    (h : Derives phrase n text e rest)
    (hleft : ∀ kind left, phrase = .more kind left → left.Everywhere WasRead) :
    e.Everywhere WasRead := by
  induction h with
  | minus _ _ ih => exact .neg trivial (ih (by simp))
  | plus _ _ ih => exact ih (by simp)
  | bare _ ih => exact ih (by simp)
  | unraised _ _ ih => exact ih (by simp)
  | raised _ _ _ ihbase ihexponent =>
    exact .binary trivial (ihbase (by simp)) (ihexponent (by simp))
  | enclosed _ _ _ ih => exact ih (by simp)
  | number => exact .number ⟨_, rfl⟩
  | name _ hstart hsplit _ =>
    refine .name ?_
    rw [WasRead, String.toList_ofList]
    exact isWord_of_splitName hstart hsplit
  | call _ hstart hsplit _ segments _ _ ih =>
    refine .call ?_ ?_
    · rw [WasRead, String.toList_ofList]
      exact isWord_of_splitName hstart hsplit
    · intro a ha
      obtain ⟨s, hs, rfl⟩ := List.mem_map.mp ha
      exact ih s hs (by simp)
  | @chain _ kind _ _ _ _ _ _ _ ihleft ihmore =>
    refine ihmore fun kind' left' heq => ?_
    obtain ⟨-, rfl⟩ := Phrase.more.inj heq
    exact ihleft (by cases kind <;> simp [Chain.operand])
  | done => exact hleft _ _ rfl
  | @joined _ kind _ _ _ _ _ _ _ _ _ _ _ ihright ihmore =>
    refine ihmore fun kind' left' heq => ?_
    obtain ⟨-, rfl⟩ := Phrase.more.inj heq
    exact .binary trivial (hleft _ _ rfl) (ihright (by cases kind <;> simp [Chain.operand]))
  | unconverted _ _ ih => exact ih (by simp)
  | converted _ _ hsplit hunit ih =>
    refine .convert ?_ (ih (by simp))
    rw [WasRead, String.toList_ofList]
    exact isName_of_splitName hsplit hunit

/-- All nodes of a tree that was read were read. -/
theorem everywhere_wasRead_of_parse {text : String} {e : Expr} (hparse : parse text = .ok e) :
    e.Everywhere WasRead := by
  rw [← parseWithin_maxDepth] at hparse
  obtain ⟨start, rest, hderives⟩ := derives_of_parseWithin hparse
  exact hderives.everywhere_wasRead (by simp)

/-- A tree that was read with finite numbers is read back from its canonical text just when the text
does not take more levels than there are, if the text keeps the meaning of every node. The tree that
is read back has the same value under every interpretation, or has none where the first has
none. -/
theorem echo_reads_back {text : String} {e : Expr} (hparse : parse text = .ok e)
    (hfinite : e.Everywhere IsFinite) (hmeaning : e.Everywhere fun s => s.keepsMeaning = true) :
    parse (e.echo false) =
        (if e.levels 0 ≤ maxDepth then .ok e.reread else .error .tooDeep) ∧
      ∀ i : Interpretation, i.value e.reread = i.value e := by
  have hlegible : e.Everywhere Legible :=
    ((everywhere_wasRead_of_parse hparse).and hfinite).mono fun s h =>
      legible_of_wasRead h.1 h.2
  exact ⟨parse_echo (hlegible.and hmeaning), fun i => i.value_reread hmeaning⟩

/-- A sum whose right operand is a difference is written without parentheses, and is regrouped. -/
theorem echo_reads_back_regrouped :
    let x := Expr.neg (.name "x")
    let y := Expr.name "y"
    let z := Expr.binary .juxtapose (.number 2) (.name "z")
    let e := Expr.convert (.binary .add x (.binary .sub y z)) "m"
    let e' := Expr.convert (.binary .sub (.binary .add x y) z) "m"
    parse "-x + (y - 2 z) to m" = .ok e ∧ parse (e.echo false) = .ok e' ∧
      ∀ i : Interpretation, i.value e' = i.value e := by
  intro x y z e e'
  have hparse : parse "-x + (y - 2 z) to m" = .ok e := by decide +kernel
  have hfinite : e.Everywhere IsFinite := by
    refine .convert trivial (.binary trivial (.neg trivial (.name trivial))
      (.binary trivial (.name trivial) (.binary trivial (.number ?_) (.name trivial))))
    show rational? 2 ≠ none
    decide +kernel
  have hmeaning : e.Everywhere fun s => s.keepsMeaning = true := by
    refine .convert ?_ (.binary ?_ (.neg ?_ (.name ?_))
      (.binary ?_ (.name ?_) (.binary ?_ (.number ?_) (.name ?_)))) <;> decide +kernel
  obtain ⟨hecho, hvalue⟩ := echo_reads_back hparse hfinite hmeaning
  have hlevels : e.levels 0 ≤ maxDepth := by decide +kernel
  have hreread : e.reread = e' := by decide +kernel
  rw [if_pos hlevels, hreread] at hecho
  rw [hreread] at hvalue
  exact ⟨hparse, hecho, hvalue⟩

-- Without a condition on the meaning of a node, the text is read otherwise or not at all.

example : parse ((Expr.binary .juxtapose (.name "x") (.neg (.name "y"))).echo false) =
    .ok (.binary .sub (.name "x") (.name "y")) := by
  decide +kernel

example : parse ((Expr.neg (.convert (.binary .add (.name "x") (.name "y")) "m")).echo false) =
    .ok (.convert (.binary .add (.neg (.name "x")) (.name "y")) "m") := by
  decide +kernel

example : parse ((Expr.convert (.convert (.name "x") "m") "km").echo false) =
    fault (.unexpected 't') := by
  decide +kernel

end Reckoner.Expr
