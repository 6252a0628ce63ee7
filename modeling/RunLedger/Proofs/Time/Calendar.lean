/-
  Proofs/Time/Calendar.lean --- days and their dates.

  WHAT THIS FILE IS FOR.  Every day has a date that exists, and the date gives the
  day back.  Dates that exist are in the order of their days, so what is sorted by
  its date is sorted by its day.
-/
import RunLedger.Time.Calendar

set_option autoImplicit false

namespace RunLedger.Time

/-! ## Years -/

/-- The number of days of a year. -/
def yearLength (year : Int) : Nat := monthStart (isLeapYear year) 13

theorem isLeapYear_iff (year : Int) :
    isLeapYear year = true ↔ year % 4 = 0 ∧ (¬ year % 100 = 0 ∨ year % 400 = 0) := by
  simp [isLeapYear]

theorem daysBeforeYear_succ (year : Int) :
    daysBeforeYear (year + 1) = daysBeforeYear year + yearLength year := by
  have hleap := isLeapYear_iff year
  unfold daysBeforeYear yearLength
  cases hyear : isLeapYear year with
  | true =>
    have hdays : monthStart true 13 = 366 := rfl
    rw [hdays]
    simp only [hyear, true_iff] at hleap
    omega
  | false =>
    have hdays : monthStart false 13 = 365 := rfl
    rw [hdays]
    simp only [hyear, Bool.false_eq_true, false_iff] at hleap
    omega

theorem daysBeforeYear_le {first second : Int} (h : first ≤ second) :
    daysBeforeYear first ≤ daysBeforeYear second := by
  unfold daysBeforeYear
  omega

/-- Four hundred years have 146097 days, and any years before the first of January of a year are
off the mean by less than two days. -/
theorem daysBeforeYear_bounds (year : Int) :
    146097 * year - 396 ≤ 400 * daysBeforeYear year ∧
      400 * daysBeforeYear year ≤ 146097 * year + 699 := by
  unfold daysBeforeYear
  omega

/-- A day lies in its year. -/
theorem yearOfDays_spec (days : Int) :
    daysBeforeYear (yearOfDays days) ≤ days ∧ days < daysBeforeYear (yearOfDays days + 1) := by
  have hearlier := daysBeforeYear_bounds (days * 400 / 146097 - 1)
  have hlater := daysBeforeYear_bounds (days * 400 / 146097 + 1 + 1)
  unfold yearOfDays
  dsimp only
  split
  · omega
  · split
    · omega
    · rw [Int.sub_add_cancel]
      omega

/-! ## Months -/

/-- The month of a day is the last one that begins on that day or before. -/
theorem monthOfDay_spec (leap : Bool) (dayOfYear count : Nat) (hcount : 1 ≤ count) :
    1 ≤ monthOfDay leap dayOfYear count ∧ monthOfDay leap dayOfYear count ≤ count ∧
      monthStart leap (monthOfDay leap dayOfYear count) ≤ dayOfYear ∧
      ∀ later, monthOfDay leap dayOfYear count < later → later ≤ count →
        dayOfYear < monthStart leap later := by
  have hfirst : monthStart leap 1 = 0 := by cases leap <;> rfl
  induction count with
  | zero => omega
  | succ count ih =>
    unfold monthOfDay
    split
    · rename_i hbegun
      exact ⟨by omega, by omega, hbegun, fun later h h' => by omega⟩
    · rename_i hbegun
      obtain ⟨hpos, hle, hstart, hnext⟩ := ih <|
        Nat.one_le_iff_ne_zero.mpr <| by
          rintro rfl
          rw [Nat.zero_add, hfirst] at hbegun
          exact hbegun (Nat.zero_le _)
      refine ⟨hpos, by omega, hstart, fun later h h' => ?_⟩
      rcases Nat.lt_or_eq_of_le h' with hlater | rfl
      · exact hnext later h (by omega)
      · omega

theorem monthStart_le {leap : Bool} {first second : Nat} (h : first < second)
    (hsecond : second ≤ 13) (hfirst : 1 ≤ first) :
    monthStart leap first + monthLength leap first ≤ monthStart leap second := by
  have hall : ∀ leap, ∀ second < 14, ∀ first < second, 1 ≤ first →
      monthStart leap first + monthLength leap first ≤ monthStart leap second := by decide
  exact hall leap second (by omega) first h hfirst

/-! ## Dates -/

namespace Date

/-- The date of a day exists. -/
theorem valid_ofDays (days : Int) : (ofDays days).Valid := by
  obtain ⟨hbegun, hends⟩ := yearOfDays_spec days
  rw [daysBeforeYear_succ] at hends
  obtain ⟨hpos, hle, hstart, hnext⟩ := monthOfDay_spec (isLeapYear (yearOfDays days))
    (days - daysBeforeYear (yearOfDays days)).toNat 12 (by decide)
  have hday : (days - daysBeforeYear (yearOfDays days)).toNat <
      monthStart (isLeapYear (yearOfDays days)) (monthOfDay (isLeapYear (yearOfDays days))
        (days - daysBeforeYear (yearOfDays days)).toNat 12 + 1) := by
    rcases Nat.lt_or_eq_of_le hle with hlt | heq
    · exact hnext _ (Nat.lt_succ_self _) hlt
    · rw [heq]
      show _ < yearLength _
      omega
  unfold Valid ofDays monthLength
  dsimp only
  omega

/-- The date of a day gives the day back. -/
theorem toDays_ofDays (days : Int) : (ofDays days).toDays = days := by
  obtain ⟨hbegun, -⟩ := yearOfDays_spec days
  obtain ⟨-, -, hstart, -⟩ := monthOfDay_spec (isLeapYear (yearOfDays days))
    (days - daysBeforeYear (yearOfDays days)).toNat 12 (by decide)
  unfold toDays ofDays
  dsimp only
  omega

variable {d e : Date}

/-- A date that exists lies in its year. -/
theorem Valid.toDays_bounds (h : d.Valid) :
    daysBeforeYear d.year ≤ d.toDays ∧ d.toDays < daysBeforeYear (d.year + 1) := by
  obtain ⟨hmonth, hmonth', hday, hday'⟩ := h
  have hends : monthStart (isLeapYear d.year) d.month + monthLength (isLeapYear d.year) d.month ≤
      monthStart (isLeapYear d.year) 13 := monthStart_le (by omega) (Nat.le_refl 13) hmonth
  rw [daysBeforeYear_succ]
  unfold toDays yearLength
  omega

/-- The first date is the earlier one, by its year, its month and its day in this order. -/
def Precedes (d e : Date) : Prop :=
  d.year < e.year ∨ (d.year = e.year ∧
    (d.month < e.month ∨ (d.month = e.month ∧ d.day < e.day)))

theorem Precedes.toDays_lt (h : d.Precedes e) (hd : d.Valid) (he : e.Valid) :
    d.toDays < e.toDays := by
  rcases h with hyear | ⟨hyear, hmonth | ⟨hmonth, hday⟩⟩
  · have hle := daysBeforeYear_le (show d.year + 1 ≤ e.year by omega)
    have hbefore := hd.toDays_bounds.2
    have hbehind := he.toDays_bounds.1
    omega
  · obtain ⟨hpos, -, -, hday⟩ := hd
    obtain ⟨-, hle, hday', -⟩ := he
    have hstart : monthStart (isLeapYear d.year) d.month +
        monthLength (isLeapYear d.year) d.month ≤ monthStart (isLeapYear d.year) e.month :=
      monthStart_le hmonth (by omega) hpos
    unfold toDays
    rw [← hyear]
    omega
  · unfold toDays
    rw [← hyear, ← hmonth]
    omega

theorem precedes_or_eq_or_precedes (d e : Date) : d.Precedes e ∨ d = e ∨ e.Precedes d := by
  rcases d with ⟨year, month, day⟩
  rcases e with ⟨year', month', day'⟩
  simp only [Precedes, Date.mk.injEq]
  omega

/-- Dates that exist are in the order of their days. -/
theorem precedes_iff (hd : d.Valid) (he : e.Valid) : d.Precedes e ↔ d.toDays < e.toDays := by
  constructor
  · exact fun h => h.toDays_lt hd he
  · intro hlt
    rcases precedes_or_eq_or_precedes d e with h | rfl | h
    · exact h
    · omega
    · have := h.toDays_lt he hd
      omega

theorem toDays_inj (hd : d.Valid) (he : e.Valid) : d.toDays = e.toDays ↔ d = e := by
  constructor
  · intro heq
    rcases precedes_or_eq_or_precedes d e with h | h | h
    · have := h.toDays_lt hd he
      omega
    · exact h
    · have := h.toDays_lt he hd
      omega
  · exact fun h => by rw [h]

end Date

end RunLedger.Time
