import Mathlib
import Reckoner.Proofs.Session.Isolation
import Reckoner.Proofs.Settings.Assignment
import Reckoner.StandardEngine.Definitions

/-!
# What the flags of calls leave

The flags of a call switch settings on, and these stay on. Applying two words of flags one after the
other is the same as applying the word with the bits of both, since every flag has a bit of its own
and a setting of its own. So after any calls the settings are those before with one word of flags
applied: that of the calls which were given time, whatever engine answered them and how.
-/

namespace Reckoner

namespace CallFlags

variable {flags flags' flag : CallFlags} {bit : Nat} {meaning : CallFlags × Assignment}

/-! ## Words of flags -/

/-- A flag of a single bit is given if the bit is. -/
theorem contains_eq_testBit (hflag : flag.bits.toNat = 2 ^ bit) :
    flags.contains flag = flags.bits.toNat.testBit bit := by
  have hnonzero : flag.bits ≠ 0 := by
    intro hzero
    rw [hzero] at hflag
    exact absurd hflag.symm (Nat.two_pow_pos bit).ne'
  have hmask : flags.bits &&& flag.bits = flag.bits ↔ flags.bits.toNat.testBit bit = true := by
    rw [← UInt32.toNat_inj, UInt32.toNat_and, hflag, Nat.and_two_pow]
    cases flags.bits.toNat.testBit bit
    · simpa using (Nat.two_pow_pos bit).ne
    · simp
  rw [Bool.eq_iff_iff, contains, Bool.and_eq_true, bne_iff_ne, beq_iff_eq, hmask]
  exact and_iff_right hnonzero

/-- Each flag that means something has a bit of its own. -/
theorem exists_bit (hmeaning : meaning ∈ meanings) : ∃ bit, meaning.1.bits.toNat = 2 ^ bit := by
  have hbits : ∀ meaning ∈ meanings, ∃ bit < 6, meaning.1.bits.toNat = 2 ^ bit := by decide
  obtain ⟨bit, -, hbit⟩ := hbits meaning hmeaning
  exact ⟨bit, hbit⟩

/-- A flag is given with two words if it is given with one of them. -/
theorem contains_union (hmeaning : meaning ∈ meanings) (a b : CallFlags) :
    (a.union b).contains meaning.1 = (a.contains meaning.1 || b.contains meaning.1) := by
  obtain ⟨bit, hbit⟩ := exists_bit hmeaning
  rw [contains_eq_testBit hbit, contains_eq_testBit hbit, contains_eq_testBit hbit, union,
    UInt32.toNat_or, Nat.testBit_or]

/-- The flags of any of some words. -/
def unionAll (words : List CallFlags) : CallFlags :=
  words.foldr union {}

/-- The flags of any of some words are those of the first and those of any of the others. -/
theorem unionAll_cons (first : CallFlags) (others : List CallFlags) :
    unionAll (first :: others) = first.union (unionAll others) := rfl

/-- A flag is given with some words if it is given with one of them. -/
theorem contains_unionAll (hmeaning : meaning ∈ meanings) (words : List CallFlags) :
    (unionAll words).contains meaning.1 = words.any (·.contains meaning.1) := by
  induction words with
  | nil =>
    obtain ⟨bit, hbit⟩ := exists_bit hmeaning
    rw [contains_eq_testBit hbit]
    exact Nat.zero_testBit bit
  | cons first others ih => rw [unionAll_cons, contains_union hmeaning, ih, List.any_cons]

/-- All flags that mean something. -/
def known : CallFlags :=
  unionAll (meanings.map Prod.fst)

/-- Bits without a meaning do not matter for the flags that have one. -/
theorem contains_known (hmeaning : meaning ∈ meanings) (flags : CallFlags) :
    (⟨flags.bits &&& known.bits⟩ : CallFlags).contains meaning.1 = flags.contains meaning.1 := by
  obtain ⟨bit, hbit⟩ := exists_bit hmeaning
  have hknown : known.contains meaning.1 = true := by
    rw [known, contains_unionAll hmeaning, List.any_map, List.any_eq_true]
    refine ⟨meaning, hmeaning, ?_⟩
    show meaning.1.contains meaning.1 = true
    rw [contains_eq_testBit hbit, hbit, Nat.testBit_two_pow_self]
  rw [contains_eq_testBit hbit] at hknown ⊢
  rw [contains_eq_testBit hbit, UInt32.toNat_and, Nat.testBit_and, hknown, Bool.and_true]

/-! ## Applying flags -/

/-- The assignments that flags stand for. -/
def assignments (flags : CallFlags) : List Assignment :=
  (meanings.filter fun meaning => flags.contains meaning.1).map Prod.snd

/-- Flags carry out their assignments. -/
theorem apply_eq_assigned (flags : CallFlags) (settings : Settings) :
    flags.apply settings = settings.assigned flags.assignments := by
  rw [Settings.assigned, assignments, List.foldl_map, List.foldl_filter]
  rfl

/-- What flags do depends on no more than which of those with a meaning are given. -/
theorem apply_congr
    (hsame : ∀ meaning ∈ meanings, flags.contains meaning.1 = flags'.contains meaning.1)
    (settings : Settings) : flags.apply settings = flags'.apply settings := by
  rw [apply_eq_assigned, apply_eq_assigned, assignments, assignments, List.filter_congr hsame]

/-- Flags stand for the assignments of those with a meaning that are given. -/
theorem mem_assignments {assignment : Assignment} : assignment ∈ flags.assignments ↔
    ∃ meaning ∈ meanings, flags.contains meaning.1 = true ∧ meaning.2 = assignment := by
  simp only [assignments, List.mem_map, List.mem_filter, and_assoc]

/-- No setting is written by two flags. -/
theorem eq_of_setting_eq : ∀ m ∈ meanings, ∀ m' ∈ meanings, m.2.setting = m'.2.setting → m = m' := by
  decide

/-- Applying flags after others is applying both at once. -/
theorem apply_union (first second : CallFlags) (settings : Settings) :
    (first.union second).apply settings = second.apply (first.apply settings) := by
  rw [apply_eq_assigned, apply_eq_assigned, apply_eq_assigned, ← Settings.assigned_append]
  refine Settings.assigned_eq_of_mem_iff (fun assignment => ?_) ?_ settings
  · simp only [List.mem_append, mem_assignments]
    constructor
    · rintro ⟨meaning, hmeaning, hgiven, hwrites⟩
      rw [contains_union hmeaning, Bool.or_eq_true] at hgiven
      exact hgiven.imp (fun h => ⟨meaning, hmeaning, h, hwrites⟩)
        fun h => ⟨meaning, hmeaning, h, hwrites⟩
    · rintro (⟨meaning, hmeaning, hgiven, hwrites⟩ | ⟨meaning, hmeaning, hgiven, hwrites⟩)
      · exact ⟨meaning, hmeaning, by rw [contains_union hmeaning, hgiven, Bool.true_or], hwrites⟩
      · exact ⟨meaning, hmeaning, by rw [contains_union hmeaning, hgiven, Bool.or_true], hwrites⟩
  · intro a ha b hb hsetting
    obtain ⟨m, hm, -, rfl⟩ := mem_assignments.mp ha
    obtain ⟨m', hm', -, rfl⟩ := mem_assignments.mp hb
    rw [eq_of_setting_eq m hm m' hm' hsetting]

end CallFlags

/-! ## Calls -/

/-- The flags of those of some calls that were given time. -/
def Call.timedFlags (calls : List Call) : List CallFlags :=
  (calls.filter fun c => 0 < c.timeout).map Call.flags

namespace Session

open CallFlags

variable {σ : Type} [Engine σ]

/-- A call without time changes nothing. -/
theorem call_of_timeout {session : Session σ} {c : Call} (htimeout : c.timeout ≤ 0) :
    session.call c = (.error (.invalidTimeout c.timeout), session) := by
  have hchecked : checkedTimeout c.timeout = .error (.invalidTimeout c.timeout) :=
    if_neg (not_lt.mpr htimeout)
  rw [call, calculate, hchecked]

/-- An evaluation keeps the settings, however it ends. -/
theorem settings_evaluate (session : Session σ) (clock : Clock) (expression : String)
    (timeout : Int) : (session.evaluate clock expression timeout).2.settings = session.settings := by
  unfold evaluate
  split
  · rfl
  · split
    · dsimp only
      split <;> rfl
    · rfl

/-- A call applies its flags if it is given time, also where it then fails. -/
theorem settings_call (session : Session σ) (c : Call) : (session.call c).2.settings =
    if 0 < c.timeout then c.flags.apply session.settings else session.settings := by
  split
  · next htimeout =>
    have hchecked : checkedTimeout c.timeout = .ok c.timeout.toNat := if_pos htimeout
    rw [call, calculate, hchecked]
    exact settings_evaluate _ _ _ _
  · next htimeout => rw [call_of_timeout (not_lt.mp htimeout)]

/-- Calls apply the flags of all those that were given time. -/
theorem settings_afterCalls (session : Session σ) (calls : List Call) :
    (session.afterCalls calls).settings =
      (unionAll (Call.timedFlags calls)).apply session.settings := by
  induction calls generalizing session with
  | nil => rfl
  | cons c others ih =>
    show ((session.call c).2.afterCalls others).settings = _
    rw [ih, settings_call, Call.timedFlags, Call.timedFlags]
    by_cases htimeout : 0 < c.timeout
    · rw [if_pos htimeout, List.filter_cons_of_pos (by simpa using htimeout), List.map_cons,
        unionAll_cons, apply_union]
    · rw [if_neg htimeout, List.filter_cons_of_neg (by simpa using htimeout)]

/-- After any calls the settings are those before with the flags applied of just the calls that were
given time. So sessions on any engines that begin with the same settings end with the same ones if
the same flags with a meaning were given to some of their calls with time; a call without time leaves
the whole session as it was, and bits without a meaning do nothing. -/
theorem afterCalls_apply_union (session : Session σ) (calls : List Call) :
    (session.afterCalls calls).settings =
        (unionAll (Call.timedFlags calls)).apply session.settings ∧
      (∀ {τ : Type} [Engine τ] (other : Session τ) (calls' : List Call),
        other.settings = session.settings →
        (∀ meaning ∈ meanings,
          (∃ flags ∈ Call.timedFlags calls, flags.contains meaning.1 = true) ↔
            ∃ flags ∈ Call.timedFlags calls', flags.contains meaning.1 = true) →
        (other.afterCalls calls').settings = (session.afterCalls calls).settings) ∧
      (∀ c : Call, c.timeout ≤ 0 →
        session.call c = (.error (.invalidTimeout c.timeout), session)) ∧
      ∀ flags : CallFlags, (⟨flags.bits &&& known.bits⟩ : CallFlags).apply session.settings =
        flags.apply session.settings := by
  refine ⟨settings_afterCalls session calls, ?_, fun c => call_of_timeout, fun flags => ?_⟩
  · intro τ _ other calls' hsettings hsame
    rw [settings_afterCalls, settings_afterCalls, hsettings]
    refine apply_congr (fun meaning hmeaning => ?_) _
    rw [contains_unionAll hmeaning, contains_unionAll hmeaning, Bool.eq_iff_iff, List.any_eq_true,
      List.any_eq_true]
    exact (hsame meaning hmeaning).symm
  · exact apply_congr (fun meaning hmeaning => contains_known hmeaning flags) _

/-- Two engines, one without definitions and one with them; the calls are in another order there,
one is made twice, and one has bits besides. The calls with time leave degrees and unknown names
switched on, and the one without time does not switch typographic signs on. -/
theorem afterCalls_apply_union_degrees :
    let timed (bits : UInt32) : Call := ⟨.metered 0 1, "1 +", 500, ⟨bits⟩⟩
    let session : Session StandardEngine := { engine := {} }
    let other : Session StandardEngine := { engine := .withDefinitions }
    let calls := [timed 2, ⟨.metered 0 1, "2", 0, ⟨1⟩⟩, timed 4]
    let calls' := [timed 4, timed 66, timed 4]
    other.settings = session.settings ∧
      (∀ meaning ∈ meanings,
        (∃ flags ∈ Call.timedFlags calls, flags.contains meaning.1 = true) ↔
          ∃ flags ∈ Call.timedFlags calls', flags.contains meaning.1 = true) ∧
      (session.afterCalls calls).settings =
        { parse := { angleUnit := .degrees, unknownsEnabled := true } } ∧
      (other.afterCalls calls').settings = (session.afterCalls calls).settings ∧
      session.call ⟨.metered 0 1, "2", 0, ⟨1⟩⟩ = (.error (.invalidTimeout 0), session) := by
  intro timed session other calls calls'
  have hsettings : other.settings = session.settings := rfl
  have hsame : ∀ meaning ∈ meanings,
      (∃ flags ∈ Call.timedFlags calls, flags.contains meaning.1 = true) ↔
        ∃ flags ∈ Call.timedFlags calls', flags.contains meaning.1 = true := by
    decide +kernel
  have hword : (unionAll (Call.timedFlags calls)).apply session.settings =
      { parse := { angleUnit := .degrees, unknownsEnabled := true } } := by
    decide
  obtain ⟨hcalls, hothers, huntimed, -⟩ := afterCalls_apply_union session calls
  exact ⟨hsettings, hsame, hcalls.trans hword, hothers other calls' hsettings hsame,
    huntimed ⟨.metered 0 1, "2", 0, ⟨1⟩⟩ le_rfl⟩

end Session

end Reckoner
