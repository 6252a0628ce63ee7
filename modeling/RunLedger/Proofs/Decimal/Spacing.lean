/-
  Proofs/Decimal/Spacing.lean --- the intervals that magnitudes own.

  WHAT THIS FILE IS FOR.  From one rank to the next a magnitude grows by the
  spacing at the lower rank.  So the interval of a magnitude ends where that of the
  next one begins, and the point between them belongs to one of the two at most: a
  decimal is owned by one magnitude, and tells which one it is.
-/
import Mathlib.Data.Rat.Defs
import Mathlib.Order.Monotone.Basic
import Mathlib.Tactic.Linarith
import Mathlib.Tactic.Ring
import RunLedger.Decimal.Shortest

set_option autoImplicit false

namespace RunLedger.Decimal

theorem twoPow_pos (n : Nat) : 0 < twoPow n := Nat.pow_pos (by decide)

theorem tenPow_pos (n : Nat) : 0 < tenPow n := Nat.pow_pos (by decide)

theorem twoPow_succ (n : Nat) : twoPow (n + 1) = 2 * twoPow n := by
  rw [twoPow, Nat.pow_eq, pow_succ, mul_comm]
  rfl

/-! ## From one rank to the next -/

/-- The rank is the first one of a wider spacing. -/
def IsNarrow (rank : Nat) : Prop :=
  significand rank = twoPow 52 ∧ doublings rank ≠ 0

instance (rank : Nat) : Decidable (IsNarrow rank) :=
  inferInstanceAs (Decidable (_ ∧ _))

theorem isNarrow_iff (rank : Nat) :
    IsNarrow rank ↔ rank % twoPow 52 = 0 ∧ 2 * twoPow 52 ≤ rank := by
  have htwo : twoPow 52 = 4503599627370496 := by norm_num [twoPow]
  unfold IsNarrow significand doublings
  rw [htwo]
  split <;> omega

theorem doublings_succ (rank : Nat) :
    doublings (rank + 1) = doublings rank + if IsNarrow (rank + 1) then 1 else 0 := by
  have htwo : twoPow 52 = 4503599627370496 := by norm_num [twoPow]
  have hnarrow := isNarrow_iff (rank + 1)
  unfold doublings
  rw [htwo] at hnarrow ⊢
  split
  · rename_i h
    have := hnarrow.mp h
    omega
  · rename_i h
    have : ¬ ((rank + 1) % 4503599627370496 = 0 ∧ 2 * 4503599627370496 ≤ rank + 1) :=
      fun h' => h (hnarrow.mpr h')
    omega

theorem significand_succ (rank : Nat) :
    significand (rank + 1) =
      if IsNarrow (rank + 1) then twoPow 52 else significand rank + 1 := by
  have htwo : twoPow 52 = 4503599627370496 := by norm_num [twoPow]
  have hnarrow := isNarrow_iff (rank + 1)
  by_cases h : IsNarrow (rank + 1)
  · rw [if_pos h]
    exact h.1
  · have hwide := mt hnarrow.mpr h
    rw [if_neg h]
    unfold significand
    rw [htwo] at hwide ⊢
    split <;> split <;> omega

theorem significand_of_isNarrow_succ {rank : Nat} (h : IsNarrow (rank + 1)) :
    significand rank + 1 = 2 * twoPow 52 := by
  have htwo : twoPow 52 = 4503599627370496 := by norm_num [twoPow]
  have hnarrow := (isNarrow_iff (rank + 1)).mp h
  unfold significand
  rw [htwo] at hnarrow ⊢
  split <;> omega

theorem significand_lt (rank : Nat) : significand rank < twoPow 53 := by
  have htwo : twoPow 52 = 4503599627370496 := by norm_num [twoPow]
  have hdouble : twoPow 53 = 9007199254740992 := by norm_num [twoPow]
  unfold significand
  rw [htwo, hdouble]
  split <;> omega

theorem significand_mod_two (rank : Nat) : significand rank % 2 = rank % 2 := by
  have htwo : twoPow 52 = 4503599627370496 := by norm_num [twoPow]
  unfold significand
  rw [htwo]
  split <;> omega

/-- The next magnitude is one spacing further. -/
theorem units_succ (rank : Nat) : units (rank + 1) = units rank + twoPow (doublings rank) := by
  unfold units
  rw [significand_succ, doublings_succ]
  by_cases h : IsNarrow (rank + 1)
  · have hlast := significand_of_isNarrow_succ h
    rw [if_pos h, if_pos h, twoPow_succ (doublings rank), ← Nat.succ_mul, Nat.succ_eq_add_one, hlast]
    ring
  · simp only [if_neg h, Nat.add_zero, Nat.succ_mul]

theorem units_strictMono : StrictMono units := by
  refine strictMono_nat_of_lt_succ fun rank => ?_
  rw [units_succ]
  exact Nat.lt_add_of_pos_right (twoPow_pos _)

/-! ## Intervals -/

theorem intervalOf_low (rank : Nat) :
    (intervalOf rank).low = 4 * units rank -
      (if IsNarrow rank then twoPow (doublings rank) else 2 * twoPow (doublings rank)) := by
  by_cases h : IsNarrow rank
  · simp [intervalOf, if_pos h, h.1, h.2]
  · have hwide : ¬ (significand rank = twoPow 52 ∧ doublings rank ≠ 0) := h
    simp [intervalOf, if_neg h, hwide]

theorem intervalOf_high (rank : Nat) :
    (intervalOf rank).high = 4 * units rank + 2 * twoPow (doublings rank) := rfl

/-- The interval of a magnitude ends where that of the next one begins. -/
theorem intervalOf_low_succ (rank : Nat) :
    (intervalOf (rank + 1)).low = (intervalOf rank).high := by
  rw [intervalOf_low, intervalOf_high, units_succ, doublings_succ]
  by_cases h : IsNarrow (rank + 1)
  · rw [if_pos h, if_pos h, twoPow_succ (doublings rank)]
    omega
  · rw [if_neg h, if_neg h, Nat.add_zero]
    omega

theorem intervalOf_high_strictMono : StrictMono fun rank => (intervalOf rank).high := by
  refine strictMono_nat_of_lt_succ fun rank => ?_
  simp only [intervalOf_high, units_succ]
  have hspacing := twoPow_pos (doublings rank)
  have hnext := twoPow_pos (doublings (rank + 1))
  omega

theorem intervalOf_closed (rank : Nat) : (intervalOf rank).closed = true ↔ rank % 2 = 0 := by
  simp only [intervalOf, significand_mod_two, decide_eq_true_eq]

/-- The decimal `x`, counted in quarters of a unit, belongs to the interval. -/
def Interval.Owns (i : Interval) (x : ℚ) : Prop :=
  if i.closed then i.low ≤ x ∧ x ≤ i.high else i.low < x ∧ x < i.high

theorem Interval.Owns.bounds {i : Interval} {x : ℚ} (h : i.Owns x) : i.low ≤ x ∧ x ≤ i.high := by
  unfold Owns at h
  split at h
  · exact h
  · exact ⟨h.1.le, h.2.le⟩

/-- An end of its interval belongs to a magnitude of even rank only. -/
theorem even_of_owns_end {rank : Nat} {x : ℚ} (h : (intervalOf rank).Owns x)
    (hend : x = (intervalOf rank).low ∨ x = (intervalOf rank).high) : rank % 2 = 0 := by
  rw [← intervalOf_closed]
  by_contra hopen
  rw [Interval.Owns, if_neg hopen] at h
  rcases hend with rfl | rfl
  · exact lt_irrefl _ h.1
  · exact lt_irrefl _ h.2

theorem not_owns_of_lt {r s : Nat} {x : ℚ} (hlt : r < s) (hr : (intervalOf r).Owns x) :
    ¬ (intervalOf s).Owns x := by
  intro hs
  obtain ⟨t, rfl⟩ : ∃ t, s = t + 1 := ⟨s - 1, by omega⟩
  have hle : (intervalOf r).high ≤ (intervalOf t).high :=
    intervalOf_high_strictMono.monotone (Nat.le_of_lt_succ hlt)
  have hle' : ((intervalOf r).high : ℚ) ≤ (intervalOf t).high := by exact_mod_cast hle
  have hlow := hs.bounds.1
  rw [intervalOf_low_succ] at hlow
  -- The decimal is the point between the two intervals, and they are next to each other.
  have hx : x = (intervalOf r).high := le_antisymm hr.bounds.2 (hle'.trans hlow)
  have hnext : (intervalOf r).high = (intervalOf t).high := by
    have hge : (intervalOf t).high ≤ (intervalOf r).high := by exact_mod_cast hx ▸ hlow
    exact le_antisymm hle hge
  obtain rfl : r = t := intervalOf_high_strictMono.injective hnext
  have heven := even_of_owns_end hr (.inr hx)
  have hodd := even_of_owns_end hs (.inl (by rw [hx, intervalOf_low_succ]))
  omega

/-- A decimal belongs to one magnitude at most. -/
theorem eq_of_owns {r s : Nat} {x : ℚ} (hr : (intervalOf r).Owns x)
    (hs : (intervalOf s).Owns x) : r = s := by
  rcases lt_trichotomy r s with h | h | h
  · exact absurd hs (not_owns_of_lt h hr)
  · exact h
  · exact absurd hr (not_owns_of_lt h hs)

end RunLedger.Decimal
