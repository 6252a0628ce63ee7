/-
  Proofs/Time/Order.lean --- instants are in line.

  WHAT THIS FILE IS FOR.  The order of instants is that of their pairs of
  numbers, so it is a linear order, leap seconds included.  Leaving out what is
  finer than a microsecond a second time changes nothing.  A short move in time
  leads later, and a longer one later still, whether it stays inside a leap second
  or leaves it.  Neither takes a leap second off the end of its minute.
-/
import Mathlib.Order.Lattice
import RunLedger.Time.Instant

set_option autoImplicit false

namespace RunLedger.Time.Instant

theorem lt_iff (s t : Instant) :
    s < t ↔ s.seconds < t.seconds ∨ (s.seconds = t.seconds ∧ s.nanos < t.nanos) := Iff.rfl

theorem le_iff (s t : Instant) :
    s ≤ t ↔ s.seconds < t.seconds ∨ (s.seconds = t.seconds ∧ s.nanos ≤ t.nanos) := by
  have h : s ≤ t ↔ ¬ t < s := Iff.rfl
  rw [h, lt_iff]
  omega

theorem eq_of_parts {s t : Instant} (hs : s.seconds = t.seconds) (hn : s.nanos = t.nanos) :
    s = t := by
  cases s
  cases t
  simp only at hs hn
  subst hs
  subst hn
  rfl

instance : LinearOrder Instant where
  le_refl s := by rw [le_iff]; omega
  le_trans s t u hst htu := by rw [le_iff] at hst htu ⊢; omega
  lt_iff_le_not_ge s t := by rw [lt_iff, le_iff, le_iff]; omega
  le_antisymm s t hst hts := by
    rw [le_iff] at hst hts
    exact eq_of_parts (by omega) (by omega)
  le_total s t := by rw [le_iff, le_iff]; omega
  toDecidableLE := inferInstance

theorem toMicros_toMicros (t : Instant) : t.toMicros.toMicros = t.toMicros := by
  refine eq_of_parts rfl ?_
  show t.nanos - t.nanos % 1000 - (t.nanos - t.nanos % 1000) % 1000 = t.nanos - t.nanos % 1000
  omega

/-! ## Some milliseconds later -/

theorem toMicros_eq_self_iff {t : Instant} : t.toMicros = t ↔ t.nanos % 1000 = 0 := by
  constructor
  · intro h
    have hnanos : t.nanos - t.nanos % 1000 = t.nanos := congrArg nanos h
    omega
  · exact fun h => eq_of_parts rfl (by simp [toMicros, h])

/-- Where the second of an instant ends, in nanoseconds: a leap second is part of the one before. -/
def secondEnd (t : Instant) : Nat :=
  if t.nanos < nanosPerSecond then nanosPerSecond else 2 * nanosPerSecond

/-- Less than a second later the fraction has grown, or the next second has begun. -/
theorem addMillis_cases {k : Int} (hpos : 0 < k) (hshort : k < 1000) (t : Instant) :
    ((t.addMillis k).seconds = t.seconds ∧
        ((t.addMillis k).nanos : Int) = t.nanos + k * 1000000 ∧
        t.nanos + k * 1000000 < t.secondEnd) ∨
      ((t.addMillis k).seconds = t.seconds + 1 ∧
        ((t.addMillis k).nanos : Int) + t.secondEnd = t.nanos + k * 1000000) := by
  have hbound := t.nanos_lt
  have hwhole : k.tdiv 1000 = 0 := Int.tdiv_eq_zero_of_lt (le_of_lt hpos) hshort
  have hrest : k.tmod 1000 = k := Int.tmod_eq_of_lt (le_of_lt hpos) hshort
  unfold nanosPerSecond at hbound
  simp only [addMillis, hwhole, hrest, nanosPerSecond]
  by_cases hordinary : t.nanos < 1000000000
  · have hend : t.secondEnd = 1000000000 := if_pos hordinary
    simp only [if_pos hordinary, ofNanos]
    omega
  · -- A leap second runs on to its own end.
    have hend : t.secondEnd = 2000000000 := if_neg hordinary
    simp only [if_neg hordinary]
    split
    · simp only [ofNanos]
      omega
    · split
      · omega
      · split
        · refine .inl ⟨rfl, ?_, ?_⟩
          · simp only
            omega
          · omega
        · omega

theorem lt_addMillis {k : Int} (hpos : 0 < k) (hshort : k < 1000) (t : Instant) :
    t < t.addMillis k := by
  rw [lt_iff]
  rcases t.addMillis_cases hpos hshort with ⟨hseconds, hnanos, -⟩ | ⟨hseconds, -⟩ <;> omega

/-- Of two short moves the longer one leads further. -/
theorem addMillis_lt_addMillis {j k : Int} (hpos : 0 < j) (hlt : j < k) (hshort : k < 1000)
    (t : Instant) : t.addMillis j < t.addMillis k := by
  have hj := t.addMillis_cases hpos (lt_trans hlt hshort)
  have hk := t.addMillis_cases (lt_trans hpos hlt) hshort
  rw [lt_iff]
  omega

theorem toMicros_addMillis {k : Int} (hpos : 0 < k) (hshort : k < 1000) {t : Instant}
    (h : t.toMicros = t) : (t.addMillis k).toMicros = t.addMillis k := by
  have hend : t.secondEnd % 1000 = 0 := by
    unfold secondEnd nanosPerSecond
    split <;> rfl
  rw [toMicros_eq_self_iff] at h ⊢
  rcases t.addMillis_cases hpos hshort with ⟨-, hnanos, -⟩ | ⟨-, hnanos⟩ <;> omega

/-! ## The latest of some instants -/

theorem latest_eq_max (s t : Instant) : s.latest t = max s t := by
  unfold latest
  split
  · rename_i h
    rw [max_eq_right (le_of_lt h)]
  · rename_i h
    rw [max_eq_left (le_of_not_gt h)]

theorem foldl_latest_mem (first : Instant) (rest : List Instant) :
    rest.foldl latest first ∈ first :: rest := by
  induction rest generalizing first with
  | nil => exact List.mem_cons_self
  | cons t rest ih =>
    have hlatest : first.latest t = first ∨ first.latest t = t := by
      unfold latest
      split
      · exact .inr rfl
      · exact .inl rfl
    rcases List.mem_cons.mp (ih (first.latest t)) with h | h
    · rw [List.foldl_cons, h]
      rcases hlatest with hfirst | ht
      · simp [hfirst]
      · simp [ht]
    · rw [List.foldl_cons]
      exact List.mem_cons_of_mem _ (List.mem_cons_of_mem _ h)

theorem le_foldl_latest (first : Instant) (rest : List Instant) :
    ∀ t ∈ first :: rest, t ≤ rest.foldl latest first := by
  induction rest generalizing first with
  | nil => simp
  | cons s rest ih =>
    have hstart := ih (first.latest s) _ List.mem_cons_self
    rw [latest_eq_max] at hstart
    simp only [List.foldl_cons, List.mem_cons, latest_eq_max]
    rintro t (rfl | rfl | ht)
    · exact (le_max_left _ _).trans hstart
    · exact (le_max_right _ _).trans hstart
    · have := ih (first.latest s) t (List.mem_cons_of_mem _ ht)
      rwa [latest_eq_max] at this

/-! ## Leap seconds that end a minute -/

theorem onMinute_toMicros {t : Instant} (h : t.OnMinute) : t.toMicros.OnMinute := by
  intro hleap
  have hnanos : t.toMicros.nanos ≤ t.nanos := Nat.sub_le _ _
  exact h (hleap.trans hnanos)

theorem onMinute_ofNanos (seconds nanos : Int) : (ofNanos seconds nanos).OnMinute := by
  intro hleap
  simp only [ofNanos, nanosPerSecond] at hleap
  omega

/-- A move either stays inside the leap second or ends outside of any. -/
theorem onMinute_addMillis {t : Instant} (h : t.OnMinute) (k : Int) : (t.addMillis k).OnMinute := by
  unfold addMillis
  dsimp only
  split
  · exact onMinute_ofNanos _ _
  · rename_i hleap
    split
    · exact onMinute_ofNanos _ _
    · split
      · exact onMinute_ofNanos _ _
      · split
        · exact fun _ => h (Nat.le_of_not_lt hleap)
        · exact onMinute_ofNanos _ _

end RunLedger.Time.Instant
