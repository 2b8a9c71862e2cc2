import Reckoner.Decimal.Shortest
import Reckoner.Proofs.Decimal.Value

/-!
# The shortest decimal reads back

Whatever the search for the shortest decimal returns lies in the interval of the double, so that it
is read as the double again. The search succeeds at the seventeenth digit at the latest: a unit of
that place is smaller than the interval is wide.
-/

namespace Reckoner.Decimal

open Binary64

namespace Neighbourhood

/-- A multiple of the power of two, compared with one of a power of ten. -/
theorem le_iff_scaled (n : Neighbourhood) (place : ℤ) (a b : Nat) :
    a * (2 ^ n.exponent.toNat * 10 ^ (-place).toNat) ≤
        b * (10 ^ place.toNat * 2 ^ (-n.exponent).toNat) ↔
      (a : ℚ) * 2 ^ n.exponent ≤ b * 10 ^ place := by
  rw [zpow_eq_pow_div_pow 2, zpow_eq_pow_div_pow 10, mul_div_assoc', mul_div_assoc',
    div_le_div_iff₀ (by positivity) (by positivity), mul_assoc, mul_assoc]
  exact_mod_cast Iff.rfl

/-- A multiple of a power of ten, compared with one of the power of two. -/
theorem scaled_le_iff (n : Neighbourhood) (place : ℤ) (a b : Nat) :
    b * (10 ^ place.toNat * 2 ^ (-n.exponent).toNat) ≤
        a * (2 ^ n.exponent.toNat * 10 ^ (-place).toNat) ↔
      (b : ℚ) * 10 ^ place ≤ a * 2 ^ n.exponent := by
  rw [zpow_eq_pow_div_pow 2, zpow_eq_pow_div_pow 10, mul_div_assoc', mul_div_assoc',
    div_le_div_iff₀ (by positivity) (by positivity), mul_assoc, mul_assoc]
  exact_mod_cast Iff.rfl

/-- A number lies in the interval. -/
structure Holds (n : Neighbourhood) (q : ℚ) : Prop where
  lower : n.lower * 2 ^ n.exponent ≤ q
  upper : q ≤ n.upper * 2 ^ n.exponent
  ends : n.closed = false → n.lower * 2 ^ n.exponent < q ∧ q < n.upper * 2 ^ n.exponent

/-- A multiple of a power of ten lies in the interval if it does so in units of one scale. -/
theorem holds_of_scaled {n : Neighbourhood} {place : ℤ} {c : Nat}
    (hlower : n.lower * (2 ^ n.exponent.toNat * 10 ^ (-place).toNat) ≤
      c * (10 ^ place.toNat * 2 ^ (-n.exponent).toNat))
    (hupper : c * (10 ^ place.toNat * 2 ^ (-n.exponent).toNat) ≤
      n.upper * (2 ^ n.exponent.toNat * 10 ^ (-place).toNat))
    (hends : n.closed = false →
      n.lower * (2 ^ n.exponent.toNat * 10 ^ (-place).toNat) <
          c * (10 ^ place.toNat * 2 ^ (-n.exponent).toNat) ∧
        c * (10 ^ place.toNat * 2 ^ (-n.exponent).toNat) <
          n.upper * (2 ^ n.exponent.toNat * 10 ^ (-place).toNat)) :
    n.Holds (c * 10 ^ place) where
  lower := (n.le_iff_scaled place n.lower c).mp hlower
  upper := (n.scaled_le_iff place n.upper c).mp hupper
  ends hopen := by
    obtain ⟨h₁, h₂⟩ := hends hopen
    rw [← not_le, n.scaled_le_iff, not_le] at h₁
    rw [← not_le, n.le_iff_scaled, not_le] at h₂
    exact ⟨h₁, h₂⟩

/-- What is found at a place lies in the interval. -/
theorem holds_of_onGrid {n : Neighbourhood} {tie : Tie} {place : ℤ} {c : Nat}
    (hlower : n.lower < n.center) (hupper : n.center < n.upper)
    (hfound : n.onGrid tie place = some c) : n.Holds (c * 10 ^ place) := by
  have hholds := @holds_of_scaled n place
  unfold onGrid at hfound
  dsimp only [Nat.pow_eq] at hfound
  have hscale : 0 < 2 ^ n.exponent.toNat * 10 ^ (-place).toNat := by positivity
  have hunit : 0 < 10 ^ place.toNat * 2 ^ (-n.exponent).toNat := by positivity
  generalize 2 ^ n.exponent.toNat * 10 ^ (-place).toNat = scale at *
  generalize 10 ^ place.toNat * 2 ^ (-n.exponent).toNat = unit at *
  have hleft := (Nat.mul_lt_mul_right hscale).mpr hlower
  have hright := (Nat.mul_lt_mul_right hscale).mpr hupper
  have hbelow : n.center * scale / unit * unit ≤ n.center * scale := Nat.div_mul_le_self ..
  have habove : n.center * scale < (n.center * scale / unit + 1) * unit := by
    rw [Nat.succ_mul]
    exact Nat.lt_div_mul_add hunit
  generalize n.center * scale / unit = below at *
  -- The multiple below is left of the upper end, and the one above is right of the lower end.
  have htakeBelow (h : (if n.closed then decide (n.lower * scale ≤ below * unit)
      else decide (n.lower * scale < below * unit)) = true) : n.Holds (below * 10 ^ place) := by
    apply hholds <;> grind
  have htakeAbove (h : (if n.closed then decide ((below + 1) * unit ≤ n.upper * scale)
      else decide ((below + 1) * unit < n.upper * scale)) = true) :
      n.Holds ((below + 1 : ℕ) * 10 ^ place) := by
    apply hholds <;> grind
  split at hfound
  case h_1 => simp at hfound
  case h_2 hin hout =>
    obtain rfl := Option.some.inj hfound
    exact htakeBelow hin
  case h_3 hout hin =>
    obtain rfl := Option.some.inj hfound
    exact htakeAbove hin
  case h_4 hin hin' =>
    have hc : c = below ∨ c = below + 1 := by
      split at hfound
      · exact .inl (Option.some.inj hfound).symm
      · split at hfound
        · exact .inr (Option.some.inj hfound).symm
        · split at hfound
          · exact .inr (Option.some.inj hfound).symm
          · split at hfound
            · exact .inl (Option.some.inj hfound).symm
            · exact .inr (Option.some.inj hfound).symm
    rcases hc with rfl | rfl
    · exact htakeBelow hin
    · exact htakeAbove hin'

/-- At a place whose unit is smaller than the interval is wide, a multiple is found. -/
theorem exists_onGrid {n : Neighbourhood} {tie : Tie} {place : ℤ} (hlower : n.lower < n.center)
    (hupper : n.center < n.upper)
    (hunit : (10 : ℚ) ^ place < (n.upper - n.lower) * 2 ^ n.exponent) :
    ∃ c, n.onGrid tie place = some c := by
  -- In units of one scale, the interval is longer than the distance of two multiples.
  have hwide : 1 * (10 ^ place.toNat * 2 ^ (-n.exponent).toNat) <
      (n.upper - n.lower) * (2 ^ n.exponent.toNat * 10 ^ (-place).toNat) := by
    rw [← not_le, n.le_iff_scaled, not_le, Nat.cast_sub (by omega), Nat.cast_one, one_mul]
    exact hunit
  unfold onGrid
  dsimp only [Nat.pow_eq]
  have hpos : 0 < 10 ^ place.toNat * 2 ^ (-n.exponent).toNat := by positivity
  generalize 2 ^ n.exponent.toNat * 10 ^ (-place).toNat = scale at *
  generalize 10 ^ place.toNat * 2 ^ (-n.exponent).toNat = unit at *
  rw [Nat.sub_mul, one_mul] at hwide
  generalize n.center * scale / unit = below
  split
  case h_1 hout hout' =>
    rw [Nat.succ_mul] at hout'
    have hleft : below * unit ≤ n.lower * scale := by grind
    have hright : n.upper * scale ≤ below * unit + unit := by grind
    omega
  case h_2 => exact ⟨_, rfl⟩
  case h_3 => exact ⟨_, rfl⟩
  case h_4 => split_ifs <;> cases tie <;> simp only [Option.some.injEq, exists_eq']

/-- The search ends at the first place where a multiple is found. -/
theorem search_spec (n : Neighbourhood) (tie : Tie) (attempts : Nat) {place : ℤ}
    (hexists : ∃ i < attempts, ∃ c, n.onGrid tie (place - i) = some c) :
    ∃ c p, n.search tie attempts place = ⟨c, p⟩ ∧ n.onGrid tie p = some c := by
  induction attempts generalizing place with
  | zero =>
    obtain ⟨i, hi, -⟩ := hexists
    omega
  | succ attempts ih =>
    unfold search
    split
    · next c hc => exact ⟨c, place, rfl, hc⟩
    · next hnone =>
      obtain ⟨i, hi, c, hc⟩ := hexists
      cases i with
      | zero =>
        rw [Nat.cast_zero, sub_zero, hnone] at hc
        simp at hc
      | succ i =>
        refine ih ⟨i, by omega, c, ?_⟩
        rw [← hc]
        congr 1
        push_cast
        ring

end Neighbourhood

/-- The interval that the search works with is that of the double. -/
theorem roundsTo_of_holds {m : Nat} {e : ℤ} {q : ℚ} (hm : 0 < m)
    (hq : (neighbourhood m e).Holds q) : RoundsTo q m e := by
  have hunit : (2 : ℚ) ^ e = 4 * 2 ^ (e - 2) := by
    rw [zpow_sub₀ two_ne_zero]
    ring
  have hlower : ((neighbourhood m e).lower : ℚ) * 2 ^ (neighbourhood m e).exponent
      = (m - reachBelow m e) * 2 ^ e := by
    simp only [neighbourhood, reachBelow, Nat.pow_eq]
    split
    · rw [hunit, Nat.cast_sub (by omega)]
      push_cast
      ring
    · rw [hunit, Nat.cast_sub (by omega)]
      push_cast
      ring
  have hupper : ((neighbourhood m e).upper : ℚ) * 2 ^ (neighbourhood m e).exponent
      = (m + 1 / 2) * 2 ^ e := by
    unfold neighbourhood
    dsimp only
    rw [hunit]
    push_cast
    ring
  obtain ⟨hlow, hhigh, hends⟩ := hq
  rw [hlower] at hlow hends
  rw [hupper] at hhigh hends
  refine ⟨hlow, hhigh, fun hodd => hends ?_⟩
  simp [neighbourhood, hodd]

/-- The double lies inside its interval. -/
theorem neighbourhood_ordered {m : Nat} (e : ℤ) (hm : 0 < m) :
    (neighbourhood m e).lower < (neighbourhood m e).center ∧
      (neighbourhood m e).center < (neighbourhood m e).upper := by
  unfold neighbourhood
  dsimp only
  split <;> omega

/-- The interval is wider than a unit of the seventeenth digit. -/
theorem unit_lt_width {m : Nat} {e lead : ℤ} (hm : 0 < m) (hmax : m < 2 ^ 53)
    (hlead : (10 : ℚ) ^ lead ≤ m * 2 ^ e) :
    (10 : ℚ) ^ (lead - 16) <
      ((neighbourhood m e).upper - (neighbourhood m e).lower)
        * 2 ^ (neighbourhood m e).exponent := by
  have hpos : (0 : ℚ) < 2 ^ (e - 2) := by positivity
  have hdigits : (10 : ℚ) ^ (lead - 16) * 10 ^ 16 ≤ m * 4 * 2 ^ (e - 2) := by
    have hten : (10 : ℚ) ^ lead = 10 ^ (lead - 16) * 10 ^ 16 := by
      rw [← zpow_natCast, ← zpow_add₀ (by norm_num)]
      congr 1
      omega
    have htwo : (2 : ℚ) ^ e = 4 * 2 ^ (e - 2) := by
      rw [zpow_sub₀ two_ne_zero]
      ring
    rw [hten, htwo] at hlead
    linarith
  have hmax' : (m : ℚ) < 2 ^ 53 := by exact_mod_cast hmax
  unfold neighbourhood
  dsimp only [Nat.pow_eq]
  split
  case isTrue hpower =>
    obtain ⟨rfl, -⟩ := hpower
    rw [Nat.cast_sub (by omega)]
    push_cast at hdigits ⊢
    linarith
  case isFalse =>
    rw [Nat.cast_sub (show 2 ≤ 4 * m by omega)]
    push_cast
    have hproduct : (m : ℚ) * 4 * 2 ^ (e - 2) ≤ 2 ^ 53 * 4 * 2 ^ (e - 2) := by gcongr
    linarith

/-- The shortest decimal of a finite double, which is not zero, lies in the interval of the
double. -/
theorem shortest_roundsTo (tie : Tie) {m : Nat} {e : ℤ} (hformat : IsFormat m e) (hm : 0 < m) :
    RoundsTo (shortest tie m e).value m e := by
  obtain ⟨hlower, hupper⟩ := neighbourhood_ordered e hm
  have hquotient : (numerator m e : ℚ) / denominator e = m * 2 ^ e := numerator_div_denominator m e
  have hnumerator : 0 < numerator m e := by
    simp only [numerator, Nat.pow_eq]
    positivity
  have hlead := exponentOf_le hnumerator (denominator_pos e)
  rw [hquotient] at hlead
  unfold shortest
  dsimp only
  generalize exponentOf (numerator m e) (denominator e) = lead at *
  obtain ⟨c, hc⟩ : ∃ c, (neighbourhood m e).onGrid tie (lead + 1 - (17 : ℕ)) = some c := by
    apply Neighbourhood.exists_onGrid hlower hupper
    have h := unit_lt_width hm hformat.mantissa_lt hlead
    rw [show lead + 1 - (17 : ℕ) = lead - 16 by omega]
    exact h
  obtain ⟨c, place, hsearch, hfound⟩ :=
    (neighbourhood m e).search_spec tie 18 ⟨17, by omega, c, hc⟩
  rw [hsearch]
  exact roundsTo_of_holds hm (Neighbourhood.holds_of_onGrid hlower hupper hfound)

end Reckoner.Decimal
