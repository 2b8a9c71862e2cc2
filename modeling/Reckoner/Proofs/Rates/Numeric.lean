import Reckoner.Interchange.Rates
import Reckoner.Proofs.Evaluation.Congruence
import Reckoner.Proofs.Expr.Recognition
import Reckoner.Proofs.Json.Number
import Reckoner.StandardEngine

/-!
# Rates that are numbers

A table of rates may give a rate as a number, which is kept as its text. This file follows the
number through the text: the whole text is one literal, or one behind a sign, so that the letter of
an exponent is no name and nothing is left to be multiplied, and the rate that is evaluated is the
double nearest to the number.
-/

namespace Reckoner

open Text Token Reckoner.Expr

namespace Token.NumberLiteral

variable {literal : NumberLiteral} {n : Nat}

/-- A literal that makes up a whole text is an operand. -/
theorem generates_signed (hliteral : literal.WellFormed) :
    Generates .signed (n + 1) literal.text (.number literal.decimal.toFloat) [] := by
  have hlongest : LongestMatch IsNumeral literal.text literal.text [] := by
    refine ⟨(List.append_nil _).symm, ⟨literal, hliteral, rfl⟩, fun other more htext _ => ?_⟩
    rw [htext, List.length_append]
    omega
  exact .bare (.unraised (.number (.refl _) hliteral hlongest))

/-- A literal is read as its number. -/
theorem parse_text (hliteral : literal.WellFormed) :
    parse (String.ofList literal.text) = .ok (.number literal.decimal.toFloat) := by
  have hoperand : Generates .signed maxDepth literal.text (.number literal.decimal.toFloat) [] :=
    generates_signed hliteral
  refine (parse_eq_ok_iff _ _).mpr ⟨[], ?_, by simp⟩
  rw [String.toList_ofList]
  exact .unconverted (.chain (.chain hoperand .done) .done)

/-- A literal behind a minus sign is read as the negation of its number. -/
theorem parse_minus_text (hliteral : literal.WellFormed) :
    parse (String.ofList ('-' :: literal.text)) = .ok (.neg (.number literal.decimal.toFloat)) := by
  have hoperand : Generates .signed maxDepth ('-' :: literal.text)
      (.neg (.number literal.decimal.toFloat)) [] :=
    .minus (.refl _) (generates_signed hliteral)
  refine (parse_eq_ok_iff _ _).mpr ⟨[], ?_, by simp⟩
  rw [String.toList_ofList]
  exact .unconverted (.chain (.chain hoperand .done) .done)

end Token.NumberLiteral

namespace Scope

variable {scope : Scope} {run : Run}

/-- Before the deadline, a number is evaluated to itself. -/
theorem run_eval_number (value : Float)
    (hclock : scope.clock.reading run.ticks < scope.deadline) :
    (scope.eval (.number value)).run run =
      (.ok (.number value), { run with ticks := run.ticks + 1 }) := by
  rw [eval, Evaluation.run_bind, run_checkDeadline, if_neg (by omega)]
  rfl

/-- Before the deadline, the negation of a number is evaluated to the number with the other sign. -/
theorem run_eval_neg_number (value : Float)
    (hclock : scope.clock.reading run.ticks < scope.deadline)
    (hclock' : scope.clock.reading (run.ticks + 1) < scope.deadline) :
    (scope.eval (.neg (.number value))).run run =
      (.ok (.number (-value)), { run with ticks := run.ticks + 2 }) := by
  rw [eval, Evaluation.run_bind, run_checkDeadline, if_neg (by omega)]
  dsimp only
  rw [Evaluation.run_bind, run_eval_number value hclock']
  rfl

end Scope

namespace StandardEngine

variable {engine : StandardEngine} {clock : Clock} {ticks : Nat} {text : String}

/-- In time, a rate that is a number has that value. -/
theorem evaluateRate_number {value : Float} (hparse : parse text = .ok (.number value))
    (hclock : clock.reading (ticks + 1) < clock.reading ticks + rateBudget * millisecond) :
    engine.evaluateRate clock ticks text = (value, ticks + 2) := by
  let scope := engine.scope {} clock (clock.reading ticks + rateBudget * millisecond)
  have hrun : (scope.eval (.number value)).run { ticks := ticks + 1 } =
      (.ok (.number value), { ticks := ticks + 2 }) :=
    Scope.run_eval_number value hclock
  unfold evaluateRate evaluate
  rw [hparse]
  dsimp only
  rw [hrun]
  rfl

/-- In time, a rate that is the negation of a number has the value of the other sign. -/
theorem evaluateRate_neg_number {value : Float} (hparse : parse text = .ok (.neg (.number value)))
    (hclock : clock.reading (ticks + 1) < clock.reading ticks + rateBudget * millisecond)
    (hclock' : clock.reading (ticks + 2) < clock.reading ticks + rateBudget * millisecond) :
    engine.evaluateRate clock ticks text = (-value, ticks + 3) := by
  let scope := engine.scope {} clock (clock.reading ticks + rateBudget * millisecond)
  have hrun : (scope.eval (.neg (.number value))).run { ticks := ticks + 1 } =
      (.ok (.number (-value)), { ticks := ticks + 3 }) :=
    Scope.run_eval_neg_number value hclock hclock'
  unfold evaluateRate evaluate
  rw [hparse]
  dsimp only
  rw [hrun]
  rfl

end StandardEngine

namespace RateRow

open Binary64

/-- A text is a single number literal and is read as its number, or it is one behind a minus sign
and is read as the negation of the number. -/
def IsSingleNumber (text : String) : Prop :=
  ∃ literal : NumberLiteral, literal.WellFormed ∧
    (text = String.ofList literal.text ∧ parse text = .ok (.number literal.decimal.toFloat) ∨
      text = String.ofList ('-' :: literal.text) ∧
        parse text = .ok (.neg (.number literal.decimal.toFloat)))

/-- A row whose rate is a number is kept with a text that is a single literal, perhaps behind a
sign. In time, the rate of the row is the number rounded to a double, ties to even, and no double is
nearer to the number. -/
theorem ofJson?_number {json : Json} {name : String} {n : JsonNumber}
    (hfields : json.record? [["name"], ["rate", "value"]] =
      some [some (.string name), some (.number n)])
    (hheld : n.IsHeld) (engine : StandardEngine) {clock : Clock} {ticks : Nat}
    (hclock : ∀ i ≤ 2, clock.reading (ticks + i) <
      clock.reading ticks + rateBudget * millisecond) :
    ofJson? json = some ⟨name, n.text⟩ ∧ IsSingleNumber n.text ∧
      (engine.evaluateRate clock ticks n.text).1 = n.toFloat ∧
      IsRounded n.value n.toFloat ∧ IsNearest n.value n.toFloat := by
  have hread : ofJson? json = some ⟨name, n.text⟩ := by
    unfold ofJson?
    rw [hfields]
    rfl
  have hreading : clock.reading (ticks + 1) <
    clock.reading ticks + rateBudget * millisecond := hclock 1 (by decide)
  have hreading' : clock.reading (ticks + 2) <
    clock.reading ticks + rateBudget * millisecond := hclock 2 le_rfl
  obtain ⟨hfinite, hrounded⟩ := JsonNumber.isRounded_toFloat hheld
  obtain ⟨negative, literal, hliteral, htext, hvalue⟩ := JsonNumber.exists_literal hheld
  have htext' : n.text = String.ofList (Decimal.signed negative literal.text) := by
    rw [← htext, String.ofList_toList]
  suffices hrate : IsSingleNumber n.text ∧
      (engine.evaluateRate clock ticks n.text).1 = n.toFloat from
    ⟨hread, hrate.1, hrate.2, hrounded, hrounded.isNearest hfinite⟩
  rw [htext', hvalue]
  cases negative with
  | false =>
    have hparse := literal.parse_text hliteral
    exact ⟨⟨literal, hliteral, .inl ⟨rfl, hparse⟩⟩,
      congrArg Prod.fst (StandardEngine.evaluateRate_number hparse hreading)⟩
  | true =>
    have hparse := literal.parse_minus_text hliteral
    exact ⟨⟨literal, hliteral, .inr ⟨rfl, hparse⟩⟩,
      congrArg Prod.fst (StandardEngine.evaluateRate_neg_number hparse hreading hreading')⟩

/-- A rate with an exponent, under the other name of its field. -/
theorem ofJson?_number_exponent :
    let json := Json.object [("name", .string "VND"), ("value", .number (.float (-2.5e-7)))]
    json.record? [["name"], ["rate", "value"]] =
        some [some (.string "VND"), some (.number (.float (-2.5e-7)))] ∧
      JsonNumber.IsHeld (.float (-2.5e-7)) ∧
      (∀ i ≤ 2, (Clock.metered 0 1).reading (0 + i) <
        (Clock.metered 0 1).reading 0 + rateBudget * millisecond) ∧
      ofJson? json = some ⟨"VND", "-2.5e-7"⟩ ∧ IsSingleNumber "-2.5e-7" ∧
      ((default : StandardEngine).evaluateRate (.metered 0 1) 0 "-2.5e-7").1 = -2.5e-7 ∧
      IsNearest (toRat (-2.5e-7)) (-2.5e-7) := by
  intro json
  have hfields : json.record? [["name"], ["rate", "value"]] =
      some [some (.string "VND"), some (.number (.float (-2.5e-7)))] := rfl
  have hheld : JsonNumber.IsHeld (.float (-2.5e-7)) := by
    show (-2.5e-7 : Float).isFinite = true
    decide +kernel
  have hclock : ∀ i ≤ 2, (Clock.metered 0 1).reading (0 + i) <
      (Clock.metered 0 1).reading 0 + rateBudget * millisecond := by decide
  have htext : (JsonNumber.float (-2.5e-7)).text = "-2.5e-7" := by decide +kernel
  obtain ⟨hread, hsingle, hrate, -, hnearest⟩ := ofJson?_number hfields hheld default hclock
  rw [htext] at hread hsingle hrate
  exact ⟨hfields, hheld, hclock, hread, hsingle, hrate, hnearest⟩

end RateRow

end Reckoner
