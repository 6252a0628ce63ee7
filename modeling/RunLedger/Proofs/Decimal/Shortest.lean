/-
  Proofs/Decimal/Shortest.lean --- the shortest decimal of a magnitude is its own.

  WHAT THIS FILE IS FOR.  The search for the shortest decimal takes the first
  decimal that it finds in the interval of the magnitude.  With seventeen digits
  the decimals are closer to each other than the interval is wide, so the search
  finds one, and what it finds belongs to the magnitude.
-/
import Mathlib.Tactic.FieldSimp
import Mathlib.Tactic.NormNum
import RunLedger.Proofs.Decimal.Spacing

set_option autoImplicit false

namespace RunLedger.Decimal

/-- The quantity that a decimal stands for. -/
def Shortest.value (s : Shortest) : ℚ := s.digits * (10 : ℚ) ^ s.exponent

theorem quarters_pos : 0 < quarters := by decide +kernel

namespace Interval

variable {i : Interval} {step count : Nat}

/-! ## What the search finds -/

/-- A number of steps that reaches into the interval, as a decimal in it. -/
theorem reaches_iff {place : Nat} :
    i.reaches count (tenPow place) = true ↔
      i.Owns ((Shortest.mk count ((place : Int) - placesMax)).value * quarters) := by
  unfold reaches Owns Shortest.value
  generalize placesMax = places
  generalize quarters = unit
  have hscale : (0 : ℚ) < (10 : ℚ) ^ places := by positivity
  have hvalue : (count : ℚ) * (10 : ℚ) ^ ((place : Int) - places) * unit =
      (count * 10 ^ place * unit) / 10 ^ places := by
    rw [zpow_sub₀ (by norm_num), zpow_natCast, zpow_natCast]
    field_simp
  rw [hvalue, le_div_iff₀ hscale, div_le_iff₀ hscale, lt_div_iff₀ hscale, div_lt_iff₀ hscale]
  cases i.closed
  · simp only [tenPow, Nat.pow_eq, Bool.false_eq_true, if_false, Bool.and_eq_true,
      decide_eq_true_eq]
    norm_cast
  · simp only [tenPow, Nat.pow_eq, if_true, Bool.and_eq_true, decide_eq_true_eq]
    norm_cast

theorem reaches_of_onGrid? (h : i.onGrid? step = some count) : i.reaches count step = true := by
  unfold onGrid? at h
  dsimp only at h
  generalize i.middle * tenPow placesMax / (step * quarters) = below at h
  generalize 2 * (i.middle * tenPow placesMax % (step * quarters)) = twice at h
  generalize step * quarters = width at h
  cases hbelow : i.reaches below step <;> cases habove : i.reaches (below + 1) step <;>
    simp only [hbelow, habove] at h
  · cases h
  · obtain rfl := Option.some.inj h
    exact habove
  · obtain rfl := Option.some.inj h
    exact hbelow
  · split at h
    · obtain rfl := Option.some.inj h
      exact hbelow
    · split at h
      · obtain rfl := Option.some.inj h
        exact habove
      · obtain rfl := Option.some.inj h
        rcases Nat.mod_two_eq_zero_or_one below with heven | hodd
        · rw [heven, Nat.add_zero]
          exact hbelow
        · rw [hodd]
          exact habove

/-- The search finds a decimal in the interval when there is one on a grid that it tries. -/
theorem owns_search {tries digits place : Nat}
    (h : ∃ d, digits ≤ d ∧ d < digits + tries ∧
      (i.onGrid? (tenPow (place + 1 - d))).isSome = true) :
    i.Owns ((i.search tries digits place).value * quarters) := by
  induction tries generalizing digits with
  | zero =>
    obtain ⟨d, hle, hlt, -⟩ := h
    omega
  | succ tries ih =>
    unfold search
    dsimp only
    split
    · rename_i count hfound
      exact reaches_iff.mp (reaches_of_onGrid? hfound)
    · rename_i hmissed
      obtain ⟨d, hle, hlt, hfound⟩ := h
      refine ih ⟨d, ?_, by omega, hfound⟩
      rcases Nat.eq_or_lt_of_le hle with rfl | hlater
      · rw [hmissed] at hfound
        cases hfound
      · exact hlater

theorem onGrid?_isSome_of_reaches {below : Nat}
    (hbelow : i.middle * tenPow placesMax / (step * quarters) = below)
    (h : i.reaches below step = true ∨ i.reaches (below + 1) step = true) :
    (i.onGrid? step).isSome = true := by
  unfold onGrid?
  dsimp only
  rw [hbelow]
  generalize 2 * (i.middle * tenPow placesMax % (step * quarters)) = twice
  generalize step * quarters = width
  cases hfirst : i.reaches below step <;> cases hnext : i.reaches (below + 1) step <;>
    simp only [hfirst, hnext] at h ⊢
  · simp at h
  · rfl
  · rfl
  · split
    · rfl
    · split <;> rfl

theorem reaches_of_lt (hlow : i.low * tenPow placesMax < count * step * quarters)
    (hhigh : count * step * quarters < i.high * tenPow placesMax) :
    i.reaches count step = true := by
  unfold reaches
  generalize i.low * tenPow placesMax = low at hlow
  generalize i.high * tenPow placesMax = high at hhigh
  generalize count * step * quarters = at_ at hlow hhigh
  dsimp only
  split <;> simp <;> omega

/-- A grid that is finer than the interval is wide has a decimal in the interval. -/
theorem onGrid?_isSome (hstep : 0 < step * quarters)
    (hlow : i.low < i.middle) (hhigh : i.middle < i.high)
    (hwide : i.low * tenPow placesMax + step * quarters < i.high * tenPow placesMax) :
    (i.onGrid? step).isSome = true := by
  refine onGrid?_isSome_of_reaches rfl ?_
  have hscale := tenPow_pos placesMax
  have hreaches := @reaches_of_lt i step
  generalize tenPow placesMax = scale at *
  have hlow' : i.low * scale < i.middle * scale := Nat.mul_lt_mul_of_pos_right hlow hscale
  have hhigh' : i.middle * scale < i.high * scale := Nat.mul_lt_mul_of_pos_right hhigh hscale
  have hdiv := Nat.div_add_mod (i.middle * scale) (step * quarters)
  have hmod := Nat.mod_lt (i.middle * scale) hstep
  generalize i.low * scale = low at *
  generalize i.middle * scale = middle at *
  generalize i.high * scale = high at *
  generalize middle / (step * quarters) = below at *
  generalize middle % (step * quarters) = rest at *
  have hbelow : below * step * quarters = step * quarters * below := by ring
  have hnext : (below + 1) * step * quarters = step * quarters * below + step * quarters := by ring
  by_cases hnear : low < step * quarters * below
  · exact .inl (hreaches (by omega) (by omega))
  · exact .inr (hreaches (by omega) (by omega))

end Interval

/-! ## Seventeen digits -/

/-- The interval of a magnitude is wide: its width times `10 ^ 16` is more than the magnitude. -/
theorem middle_lt_width {rank : Nat} (hrank : 0 < rank) :
    (intervalOf rank).low < (intervalOf rank).middle ∧
      (intervalOf rank).middle < (intervalOf rank).high ∧
      (intervalOf rank).middle <
        ((intervalOf rank).high - (intervalOf rank).low) * 10000000000000000 := by
  have hdigits : twoPow 53 = 9007199254740992 := by norm_num [twoPow]
  have hhalf : twoPow 52 = 4503599627370496 := by norm_num [twoPow]
  have hsmall := significand_lt rank
  have hspacing := twoPow_pos (doublings rank)
  have hmiddle : (intervalOf rank).middle = 4 * (significand rank * twoPow (doublings rank)) := rfl
  have hpositive : 0 < significand rank := by
    unfold significand
    rw [hhalf]
    split <;> omega
  have hnarrow : IsNarrow rank → significand rank = twoPow 52 := fun h => h.1
  rw [intervalOf_low, intervalOf_high, hmiddle, units]
  rw [hdigits] at hsmall
  rw [hhalf] at hnarrow
  generalize significand rank = count at *
  generalize twoPow (doublings rank) = spacing at *
  have hone : spacing ≤ count * spacing := Nat.le_mul_of_pos_left spacing hpositive
  by_cases h : IsNarrow rank
  · obtain rfl := hnarrow h
    rw [if_pos h]
    omega
  · have hbound : count * spacing ≤ 9007199254740992 * spacing :=
      Nat.mul_le_mul_right spacing (Nat.le_of_lt hsmall)
    rw [if_neg h]
    omega

/-- Sixteen digits behind the first place, the grid is finer than the interval is wide. -/
theorem onGrid?_seventeen {rank place : Nat} (hrank : 0 < rank) (hplace : 16 ≤ place)
    (hle : tenPow place ≤ (intervalOf rank).middle * tenPow placesMax / quarters) :
    ((intervalOf rank).onGrid? (tenPow (place + 1 - 17))).isSome = true := by
  obtain ⟨hlow, hhigh, hwidth⟩ := middle_lt_width hrank
  have hunit := quarters_pos
  have hscale := tenPow_pos placesMax
  have hgrid := tenPow_pos (place + 1 - 17)
  have hsteps : tenPow (place + 1 - 17) * 10000000000000000 = tenPow place := by
    have hsixteen : (10000000000000000 : Nat) = 10 ^ 16 := by norm_num
    rw [hsixteen, tenPow, tenPow, Nat.pow_eq, Nat.pow_eq, ← pow_add]
    congr 1
    omega
  refine Interval.onGrid?_isSome (Nat.mul_pos hgrid hunit) hlow hhigh ?_
  have hmiddle : tenPow place * quarters ≤ (intervalOf rank).middle * tenPow placesMax :=
    (Nat.le_div_iff_mul_le hunit).mp hle
  generalize tenPow placesMax = scale at *
  generalize quarters = unit at *
  have hfine : tenPow (place + 1 - 17) * unit * 10000000000000000 <
      ((intervalOf rank).high - (intervalOf rank).low) * scale * 10000000000000000 := by
    calc tenPow (place + 1 - 17) * unit * 10000000000000000
        = tenPow place * unit := by rw [← hsteps]; ring
      _ ≤ (intervalOf rank).middle * scale := hmiddle
      _ < ((intervalOf rank).high - (intervalOf rank).low) * 10000000000000000 * scale :=
          Nat.mul_lt_mul_of_pos_right hwidth hscale
      _ = _ := by ring
  have hfine' := Nat.lt_of_mul_lt_mul_right hfine
  rw [Nat.sub_mul] at hfine'
  omega

theorem Shortest.value_strip (fuel : Nat) (s : Shortest) : (s.strip fuel).value = s.value := by
  induction fuel generalizing s with
  | zero => rfl
  | succ fuel ih =>
    unfold strip
    split
    · rename_i hzeros
      rw [ih]
      have hdigits : s.digits = s.digits / 10 * 10 := by omega
      unfold value
      conv_rhs => rw [hdigits]
      push_cast
      rw [zpow_add₀ (by norm_num)]
      ring
    · rfl

/-- The shortest decimal of a magnitude belongs to the magnitude. -/
theorem owns_shortest {rank : Nat} (hrank : 0 < rank) :
    (intervalOf rank).Owns ((shortest rank).value * quarters) := by
  unfold shortest
  dsimp only
  rw [Shortest.value_strip]
  have hmiddle : 4 ≤ (intervalOf rank).middle := by
    have hunits : units 0 < units rank := units_strictMono hrank
    have hpart : (intervalOf rank).middle = 4 * units rank := rfl
    omega
  have hlarge : 10 ^ 16 ≤ (intervalOf rank).middle * tenPow placesMax / quarters := by
    rw [Nat.le_div_iff_mul_le quarters_pos]
    have hfour : 10 ^ 16 * quarters ≤ 4 * tenPow placesMax := by decide +kernel
    exact hfour.trans (Nat.mul_le_mul_right _ hmiddle)
  generalize hwhole : (intervalOf rank).middle * tenPow placesMax / quarters = whole at hlarge ⊢
  have hlength : 16 < (Nat.toDigits 10 whole).length := by
    rw [← Nat.not_le, Nat.length_toDigits_le_iff (by decide) (by decide)]
    exact Nat.not_lt.mpr hlarge
  have hplace : tenPow ((Nat.toDigits 10 whole).length - 1) ≤ whole := by
    have hshort : ¬ (Nat.toDigits 10 whole).length ≤ (Nat.toDigits 10 whole).length - 1 := by omega
    rw [Nat.length_toDigits_le_iff (by decide) (by omega)] at hshort
    exact Nat.not_lt.mp hshort
  refine Interval.owns_search ⟨17, by decide, by decide, ?_⟩
  exact onGrid?_seventeen hrank (by omega) (hwhole ▸ hplace)

end RunLedger.Decimal
