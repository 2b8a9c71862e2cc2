import Reckoner.Proofs.Answer.Radix
import Reckoner.Proofs.Session.Flags
import Reckoner.Proofs.Settings.Command

/-!
# Settings that a session can reach

A session begins with the standard settings, and from then on commands and the flags of calls change
them. This file follows the base of integer answers through any sequence of both: only a command
writes it, and a command can name no other base than the four that numbers are written in.
-/

namespace Reckoner

/-- The bases that integer answers are written in. -/
def answerBases : List Nat :=
  [2, 8, 10, 16]

namespace Assignment

/-- Only one assignment writes the base. -/
theorem base_apply (assignment : Assignment) (settings : Settings) :
    (assignment.apply settings).print.base = settings.print.base ∨
      ∃ radix, assignment = .base radix ∧ (assignment.apply settings).print.base = radix := by
  cases assignment with
  | base radix => exact .inr ⟨radix, rfl, rfl⟩
  | _ => exact .inl rfl

/-- A value of the base is one of the four. -/
theorem mem_answerBases_of_readBase? {value : String} {radix : Nat}
    (hvalue : readBase? value = some radix) : radix ∈ answerBases := by
  unfold readBase? at hvalue
  split at hvalue <;> cases hvalue <;> decide

/-- A command that writes the base names one of the four. -/
theorem mem_answerBases_of_read? {command : String} {radix : Nat}
    (hcommand : read? command = some (.base radix)) : radix ∈ answerBases := by
  obtain ⟨⟨name, value⟩, -, hread⟩ := Option.bind_eq_some_iff.mp hcommand
  dsimp only at hread
  generalize String.ofList (Text.trimmed name) = name at hread
  generalize String.ofList (Text.trimmed value) = value at hread
  unfold ofNameAndValue? at hread
  split at hread
  case h_8 =>
    obtain ⟨radix', hvalue, heq⟩ := Option.map_eq_some_iff.mp hread
    obtain rfl := Assignment.base.inj heq
    exact mem_answerBases_of_readBase? hvalue
  case h_12 => cases hread
  all_goals
    obtain ⟨_, -, heq⟩ := Option.map_eq_some_iff.mp hread
    cases heq

end Assignment

/-- Flags do not write the base. -/
theorem CallFlags.base_apply (flags : CallFlags) (settings : Settings) :
    (flags.apply settings).print.base = settings.print.base := by
  have hother : ∀ meaning ∈ meanings, ∀ radix, meaning.2 ≠ .base radix := by
    simp [meanings]
  refine List.foldlRecOn meanings _
    (motive := fun s : Settings => s.print.base = settings.print.base) rfl
    fun s hs meaning hmeaning => ?_
  dsimp only
  split
  · rcases meaning.2.base_apply s with hkept | ⟨radix, heq, -⟩
    · rwa [hkept]
    · exact absurd heq (hother meaning hmeaning radix)
  · exact hs

namespace Session

open Answer Binary64

variable {σ : Type}

variable [Engine σ]

/-- What a user of a session does. -/
inductive Interaction where
  /-- a command about a setting -/
  | command (text : String)
  /-- a call for the answer to an expression -/
  | call (c : Call)

/-- The session after one interaction. -/
def interact (session : Session σ) : Interaction → Session σ
  | .command text => (session.setOption text).2
  | .call c => (session.call c).2

/-- The session after some interactions, one after another. -/
def afterInteractions (session : Session σ) (interactions : List Interaction) : Session σ :=
  interactions.foldl interact session

/-- One interaction leaves the base one of the four. -/
theorem base_interact {session : Session σ} (hbase : session.settings.print.base ∈ answerBases)
    (interaction : Interaction) :
    (session.interact interaction).settings.print.base ∈ answerBases := by
  cases interaction with
  | command text =>
    rw [interact, setOption_eq]
    cases hread : Assignment.read? text with
    | none => exact hbase
    | some assignment =>
      show (assignment.apply session.settings).print.base ∈ answerBases
      rcases assignment.base_apply session.settings with hkept | ⟨radix, rfl, hwritten⟩
      · rwa [hkept]
      · rw [hwritten]
        exact Assignment.mem_answerBases_of_read? hread
  | call c =>
    rw [interact, settings_call]
    split
    · rwa [CallFlags.base_apply]
    · exact hbase

/-- All interactions leave the base one of the four. -/
theorem base_afterInteractions {session : Session σ}
    (hbase : session.settings.print.base ∈ answerBases) (interactions : List Interaction) :
    (session.afterInteractions interactions).settings.print.base ∈ answerBases := by
  induction interactions generalizing session with
  | nil => exact hbase
  | cons interaction others ih => exact ih (base_interact hbase interaction)

/-- Whatever commands and calls a session has seen since it began with the standard settings, it
writes integers in one of the four bases, and those of at most 53 bits with their digits in it. -/
theorem afterInteractions_integerText (engine : σ) (interactions : List Interaction) :
    let print := (({ engine } : Session σ).afterInteractions interactions).settings.print
    print.base ∈ answerBases ∧
      (print.base ≠ 10 → ∀ (x : Float) (n : ℤ) (decimals : Option Nat), x.isFinite = true →
        toRat x = n → |n| < 2 ^ 53 →
          IsIntegerText print n (number print decimals x).toList) := by
  intro print
  have hten : 10 ∈ answerBases := by decide
  have hbase : print.base ∈ answerBases := base_afterInteractions hten interactions
  refine ⟨hbase, fun hother x n decimals hx hvalue hsize => ?_⟩
  refine isIntegerText_number ?_ hx hvalue hsize decimals
  simp only [answerBases, List.mem_cons, List.not_mem_nil, or_false] at hbase
  omega

/-- After two commands a negative integer is written in base sixteen with its mark. -/
theorem afterInteractions_integerText_hexadecimal :
    let commands : List Interaction := [.command "base 16", .command "base display on"]
    let print := (({ engine := StandardEngine.withDefinitions } : Session StandardEngine)
      |>.afterInteractions commands).settings.print
    print.base ≠ 10 ∧ (number print (some 2) (-255.0)).toList = "-0xFF".toList ∧
      IsIntegerText print (-255) (number print (some 2) (-255.0)).toList := by
  intro commands print
  have hbase : print.base ≠ 10 := by decide +kernel
  refine ⟨hbase, by decide +kernel, ?_⟩
  exact (afterInteractions_integerText StandardEngine.withDefinitions commands).2 hbase (-255.0)
    (-255) (some 2) (by decide +kernel) (by decide +kernel) (by decide)

end Session

end Reckoner
