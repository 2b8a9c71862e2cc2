import Reckoner.Proofs.Expr.Grammar

/-!
# What the allowance decides

The allowance of a parser decides only whether a text nests too deeply. This file proves that two
allowances never disagree in any other way: where the smaller one gives a tree or finds a fault, the
larger one gives the same tree or finds the same fault.
-/

namespace Reckoner.Expr

open Reckoner.Expr.Parser Reckoner.Text Reckoner.Token

/-- Reads a whole text within an allowance. -/
def parseWithin (allowance : Nat) (text : String) : Except ParseError Expr :=
  match skipBlanks text.toList with
  | [] => fault .emptyExpression
  | start => do
    let (expression, rest) ← (Level.withAllowance allowance).conversion start
    match skipBlanks rest with
    | [] => .ok expression
    | c :: _ => fault (.unexpected c)

/-- Texts are read within the levels that an expression may nest. -/
theorem parseWithin_maxDepth (text : String) : parseWithin maxDepth text = parse text := rfl

/-- What is read within an allowance is derived within it. -/
theorem derives_of_parseWithin {n : Nat} {text : String} {e : Expr}
    (hok : parseWithin n text = .ok e) : ∃ start rest, Derives .conversion n start e rest := by
  unfold parseWithin at hok
  split at hok
  · simp [fault] at hok
  · obtain ⟨⟨value, rest⟩, hvalue, hend⟩ := bind_eq_ok_iff.mp hok
    dsimp only at hend
    split at hend
    · obtain rfl := Except.ok.inj hend
      exact ⟨_, rest, (sound_withAllowance n).conversion hvalue⟩
    · simp [fault] at hend

/-- The first outcome is that the text nests too deeply, or it is the second one. -/
def Outgrown {α : Type} (small large : Except ParseError α) : Prop :=
  small = .error .tooDeep ∨ small = large

namespace Outgrown

/-- Any outcome may take the place of one that is too deep. -/
theorem tooDeep {α : Type} (large : Except ParseError α) :
    Outgrown (.error .tooDeep) large :=
  .inl rfl

/-- An outcome agrees with itself. -/
theorem refl {α : Type} (outcome : Except ParseError α) : Outgrown outcome outcome :=
  .inr rfl

/-- Too deep for the largest allowance is too deep for the smallest. -/
theorem trans {α : Type} {a b c : Except ParseError α} (hab : Outgrown a b)
    (hbc : Outgrown b c) : Outgrown a c := by
  rcases hab with ha | rfl
  · exact .inl ha
  · exact hbc

/-- Two computations agree when their first steps agree and, from the same result, so do their
second steps. -/
theorem bind {α β : Type} {a b : Except ParseError α} {f g : α → Except ParseError β}
    (hab : Outgrown a b) (hfg : ∀ x, Outgrown (f x) (g x)) : Outgrown (a >>= f) (b >>= g) := by
  rcases hab with rfl | rfl
  · exact .inl rfl
  · cases a with
    | error e => exact .inr rfl
    | ok x => exact hfg x

end Outgrown

/-- The parsers of one level agree with those of another wherever they are not too deep. -/
structure Parser.Level.Outgrown (small large : Level) : Prop where
  signed (text : List Char) : Expr.Outgrown (small.signed text) (large.signed text)
  moreFactors (left : Expr) (text : List Char) :
    Expr.Outgrown (small.moreFactors left text) (large.moreFactors left text)
  moreSummands (left : Expr) (text : List Char) :
    Expr.Outgrown (small.moreSummands left text) (large.moreSummands left text)

/-- Chains agree when their operands and the rest of them do. -/
theorem chain_outgrown (operator? : List Char → Option (Operator × List Char))
    {operand operand' : Parser Expr} {more more' : Expr → Parser Expr}
    (hoperand : ∀ text, Outgrown (operand text) (operand' text))
    (hmore : ∀ left text, Outgrown (more left text) (more' left text))
    (left : Expr) (text : List Char) :
    Outgrown (chain operator? operand more left text)
      (chain operator? operand' more' left text) := by
  unfold chain
  split
  · exact .refl _
  · exact (hoperand _).bind fun _ => hmore _ _

/-- Lists between commas agree when their items do. -/
theorem commaSeparated_outgrown {item item' : Parser Expr}
    (hitem : ∀ text, Outgrown (item text) (item' text)) (count : Nat) (text : List Char) :
    Outgrown (commaSeparated item count text) (commaSeparated item' count text) := by
  induction count generalizing text with
  | zero => exact .refl _
  | succ count ih =>
    refine (hitem text).bind fun ⟨first, rest⟩ => ?_
    dsimp only
    split
    · exact (ih _).bind fun _ => .refl _
    · exact .refl _

namespace Parser.Level.Outgrown

variable {small large : Level}

/-- Chains of factors agree. -/
theorem term (h : small.Outgrown large) (text : List Char) :
    Expr.Outgrown (small.term text) (large.term text) :=
  (h.signed text).bind fun _ => h.moreFactors _ _

/-- Chains of summands agree. -/
theorem sum (h : small.Outgrown large) (text : List Char) :
    Expr.Outgrown (small.sum text) (large.sum text) :=
  (h.term text).bind fun _ => h.moreSummands _ _

/-- Sums with their conversions agree. -/
theorem conversion (h : small.Outgrown large) (text : List Char) :
    Expr.Outgrown (small.conversion text) (large.conversion text) :=
  (h.sum text).bind fun _ => .refl _

/-- Arguments agree. -/
theorem arguments (h : small.Outgrown large) (text : List Char) :
    Expr.Outgrown (small.arguments text) (large.arguments text) := by
  unfold Level.arguments
  split
  · exact .refl _
  · exact commaSeparated_outgrown h.conversion _ _

/-- Primaries agree. -/
theorem primary (h : small.Outgrown large) (text : List Char) :
    Expr.Outgrown (small.primary text) (large.primary text) := by
  unfold Level.primary
  split
  · exact .refl _
  · split
    · exact (h.conversion _).bind fun _ => .refl _
    · split
      · exact .refl _
      · split
        · refine Expr.Outgrown.bind (.refl _) fun ⟨label, rest⟩ => ?_
          dsimp only
          split
          · exact (h.arguments _).bind fun _ => .refl _
          · exact .refl _
        · exact .refl _

/-- Primaries with their powers agree. -/
theorem power (h : small.Outgrown large) (text : List Char) :
    Expr.Outgrown (small.power text) (large.power text) := by
  refine (h.primary text).bind fun ⟨base, rest⟩ => ?_
  dsimp only
  split
  · exact (h.signed _).bind fun _ => .refl _
  · exact .refl _

/-- Operands with their signs agree. -/
theorem operand (h : small.Outgrown large) (text : List Char) :
    Expr.Outgrown (small.operand text) (large.operand text) := by
  unfold Level.operand
  split
  · exact (h.signed _).bind fun _ => .refl _
  · exact h.signed _
  · exact h.power _

/-- Levels above those that agree do so too. -/
theorem above (h : small.Outgrown large) : small.above.Outgrown large.above where
  signed := h.operand
  moreFactors := chain_outgrown _ h.signed h.moreFactors
  moreSummands := chain_outgrown _ h.term h.moreSummands

end Parser.Level.Outgrown

/-- A level agrees with the next one. -/
theorem withAllowance_outgrown_succ (n : Nat) :
    (Level.withAllowance n).Outgrown (Level.withAllowance (n + 1)) := by
  induction n with
  | zero =>
    exact {
      signed := fun _ => .tooDeep _
      moreFactors := chain_outgrown _ (fun _ => .tooDeep _) fun _ _ => .tooDeep _
      moreSummands := chain_outgrown _ (fun _ => .tooDeep _) fun _ _ => .tooDeep _ }
  | succ n ih => exact ih.above

/-- What an allowance gives for a sum and its conversion, any larger one gives too, unless the text
nests too deeply for the smaller one. -/
theorem conversion_outgrown {n m : Nat} (hnm : n ≤ m) (text : List Char) :
    Outgrown ((Level.withAllowance n).conversion text)
      ((Level.withAllowance m).conversion text) := by
  induction hnm with
  | refl => exact .refl _
  | step _ ih => exact ih.trans ((withAllowance_outgrown_succ _).conversion text)

/-- What an allowance gives for a text, any larger one gives too, unless the text nests too deeply
for the smaller one. -/
theorem parseWithin_outgrown {n m : Nat} (hnm : n ≤ m) (text : String) :
    Outgrown (parseWithin n text) (parseWithin m text) := by
  unfold parseWithin
  split
  · exact .refl _
  · exact (conversion_outgrown hnm _).bind fun _ => .refl _

end Reckoner.Expr
