/-
  Proofs/Time/Timestamp.lean --- instants are read back as they were written.

  WHAT THIS FILE IS FOR.  An instant of a year with four digits, without what is
  finer than a microsecond, is read back from its written form, leap seconds that
  end a minute included, and written forms are in the order of the instants.  A
  leap second behind another second of a minute has the written form of the second
  after it, and is read as that.  The written form of any other year is not a
  timestamp.
-/
import RunLedger.Proofs.Text.Digit
import RunLedger.Proofs.Text.Trim
import RunLedger.Proofs.Time.Calendar
import RunLedger.Proofs.Time.Order
import RunLedger.Time.Timestamp

set_option autoImplicit false

namespace RunLedger.Time.Instant

open RunLedger.Text

/-- The year is one of 0000 to 9999 in UTC. -/
def HasPlainYear (t : Instant) : Prop := 0 ≤ t.fields.date.year ∧ t.fields.date.year ≤ 9999

instance (t : Instant) : Decidable t.HasPlainYear := by
  unfold HasPlainYear; infer_instance

/-- The written form of the instant leaves nothing out, has four digits for the year, and is that of
no other instant. -/
structure HasExactText (t : Instant) : Prop where
  micros : t.toMicros = t
  year : t.HasPlainYear
  minute : t.OnMinute

instance (t : Instant) : Decidable t.HasExactText :=
  decidable_of_iff (t.toMicros = t ∧ t.HasPlainYear ∧ t.OnMinute)
    ⟨fun h => ⟨h.1, h.2.1, h.2.2⟩, fun h => ⟨h.1, h.2, h.3⟩⟩

variable {s t : Instant}

/-! ## The parts of a written instant -/

theorem valid_date (t : Instant) : t.fields.date.Valid := Date.valid_ofDays _

theorem toDays_date (t : Instant) :
    t.fields.date.toDays = t.seconds / 86400 + daysBeforeYear 1970 := Date.toDays_ofDays _

theorem clock_le (t : Instant) :
    t.fields.hour ≤ 23 ∧ t.fields.minute ≤ 59 ∧ t.fields.second ≤ 60 ∧
      t.fields.micros < 1000000 := by
  have hbound := t.nanos_lt
  unfold nanosPerSecond at hbound
  simp only [fields, secondsPerDay, nanosPerSecond]
  omega

/-- The time of day and the fraction, as numbers. -/
theorem clock_spec (h : t.OnMinute) :
    t.fields.micros = t.nanos % 1000000000 / 1000 ∧
      t.fields.hour * 3600 + t.fields.minute * 60 + min t.fields.second 59 =
        (t.seconds % 86400).toNat ∧
      t.fields.second - 59 = t.nanos / 1000000000 := by
  have hbound := t.nanos_lt
  unfold OnMinute at h
  unfold nanosPerSecond at hbound h
  simp only [fields, secondsPerDay, nanosPerSecond]
  refine ⟨trivial, ?_, ?_⟩
  · omega
  · omega

theorem nanos_of_parts (h : t.nanos % 1000 = 0) (hminute : t.OnMinute) :
    (t.fields.second - 59) * nanosPerSecond + t.fields.micros * 1000 = t.nanos := by
  obtain ⟨hmicros, -, hleap⟩ := clock_spec hminute
  unfold nanosPerSecond
  omega

/-- The written form of an instant of a year with four digits. -/
theorem formatChars_eq (h : t.HasPlainYear) :
    t.formatChars =
      fixedDigits 4 t.fields.date.year.toNat ++ '-' :: (fixedDigits 2 t.fields.date.month ++
        '-' :: (fixedDigits 2 t.fields.date.day ++ 'T' :: (fixedDigits 2 t.fields.hour ++
          ':' :: (fixedDigits 2 t.fields.minute ++ ':' :: (fixedDigits 2 t.fields.second ++
            '.' :: (fixedDigits 6 t.fields.micros ++ ['Z'])))))) := by
  have hyear : 0 ≤ t.fields.date.year ∧ t.fields.date.year ≤ 9999 := h
  simp only [formatChars, Fields.dateChars, Fields.clockChars, yearChars, if_pos hyear,
    List.append_assoc, List.cons_append]

/-- The parts have no more digits than are written. -/
theorem parts_lt (h : t.HasPlainYear) :
    t.fields.date.year.toNat < 10 ^ 4 ∧ t.fields.date.month < 10 ^ 2 ∧
      t.fields.date.day < 10 ^ 2 ∧ t.fields.hour < 10 ^ 2 ∧ t.fields.minute < 10 ^ 2 ∧
      t.fields.second < 10 ^ 2 ∧ t.fields.micros < 10 ^ 6 := by
  obtain ⟨hyear, hyear'⟩ := h
  obtain ⟨hmonth, hmonth', hday, hday'⟩ := t.valid_date
  obtain ⟨hhour, hminute, hsecond, hmicros⟩ := t.clock_le
  have hlength : ∀ leap, ∀ month < 13, monthLength leap month ≤ 31 := by decide
  have := hlength (isLeapYear t.fields.date.year) t.fields.date.month (by omega)
  omega

/-! ## Reading back -/

theorem readFraction?_micros {micros : Nat} (h : micros < 10 ^ 6) :
    readFraction? ('.' :: (fixedDigits 6 micros ++ ['Z'])) = some (micros * 1000, ['Z']) := by
  obtain ⟨digits, hlength, hvalue, hspan⟩ := exists_spanDigits_fixedDigits 6 micros ['Z']
  have hnone : spanDigits ['Z'] = ([], ['Z']) := rfl
  rw [hnone, List.append_nil] at hspan
  match digits with
  | [a, b, c, d, e, f] =>
    rw [readFraction?, hspan]
    simp only [ofDigits, List.foldl_cons, List.foldl_nil] at hvalue
    simp only [ofDigits, List.cons_append, List.nil_append, List.take, List.replicate,
      List.foldl_cons, List.foldl_nil]
    congr 2
    omega

theorem some_bind {α β : Type} (a : α) (f : α → Option β) : (some a >>= f) = f a := rfl

theorem readFixed?_bind {α : Type} {width n : Nat} (h : n < 10 ^ width) (rest : List Char)
    (f : Nat × List Char → Option α) :
    (readFixed? width 0 (fixedDigits width n ++ rest) >>= f) = f (n, rest) := by
  rw [readFixed?_fixedDigits h, some_bind]

theorem expectChar?_bind {α : Type} (c : Char) (cs : List Char) (f : List Char → Option α) :
    (expectChar? c (c :: cs) >>= f) = f cs := by
  rw [expectChar?, if_pos rfl, some_bind]

theorem readFields?_formatChars (h : t.HasPlainYear) :
    readFields? t.formatChars = some ⟨t.fields.date, t.fields.hour, t.fields.minute,
      t.fields.second, t.fields.micros * 1000, 0⟩ := by
  obtain ⟨hyear, hmonth, hday, hhour, hminute, hsecond, hmicros⟩ := parts_lt h
  have hutc : readOffset? ['Z'] = some (0, []) := rfl
  rw [formatChars_eq h, readFields?]
  -- each part is read before the reading of what follows it is looked into
  simp only [↓readFixed?_bind hyear, ↓readFixed?_bind hmonth, ↓readFixed?_bind hday,
    ↓readFixed?_bind hhour, ↓readFixed?_bind hminute, ↓readFixed?_bind hsecond,
    ↓expectChar?_bind, some_bind, readFraction?_micros hmicros, hutc]
  rw [Int.toNat_of_nonneg h.1]
  rfl

theorem ofChars?_formatChars (h : t.HasExactText) : ofChars? t.formatChars = some t := by
  have hmicros := toMicros_eq_self_iff.mp h.micros
  obtain ⟨hhour, hminute, hsecond, -⟩ := t.clock_le
  obtain ⟨-, hclock, -⟩ := clock_spec h.minute
  have hdays := t.toDays_date
  have hnanos : Reading.fraction ⟨t.fields.date, t.fields.hour, t.fields.minute,
      t.fields.second, t.fields.micros * 1000, 0⟩ = t.nanos := nanos_of_parts hmicros h.minute
  have hseconds : Reading.seconds ⟨t.fields.date, t.fields.hour, t.fields.minute,
      t.fields.second, t.fields.micros * 1000, 0⟩ = t.seconds := by
    unfold Reading.seconds secondsPerDay
    dsimp only
    omega
  rw [ofChars?, readFields?_formatChars h.year, Option.bind_some, Reading.toInstant?,
    if_pos ⟨t.valid_date, hhour, hminute, hsecond⟩]
  simp only [hseconds, hnanos]
  rw [dif_pos t.nanos_lt, if_pos h.minute]

/-- A year begins with a digit, or with a sign if it does not have four digits. -/
theorem exists_yearChars (year : Int) :
    ∃ first rest, yearChars year = first :: rest ∧ isBlank first = false ∧
      ((0 ≤ year ∧ year ≤ 9999) ∨ digitValue? first = none) := by
  unfold yearChars
  split
  · rename_i hplain
    have hdigit : ∀ d < 10, isBlank (Char.ofNat (48 + d)) = false := by decide
    exact ⟨digitChar (year.toNat / 10 / 10 / 10), _, rfl,
      hdigit _ (Nat.mod_lt _ (by decide)), .inl hplain⟩
  · by_cases hneg : year < 0
    · exact ⟨'-', _, by rw [if_pos hneg], by decide, .inr (by decide)⟩
    · exact ⟨'+', _, by rw [if_neg hneg], by decide, .inr (by decide)⟩

/-- A written instant has no blanks at its ends, and begins with a digit only if its year has four
of them. -/
theorem exists_formatChars (t : Instant) :
    ∃ first middle, t.formatChars = first :: middle ++ ['Z'] ∧ isBlank first = false ∧
      (t.HasPlainYear ∨ digitValue? first = none) := by
  obtain ⟨first, rest, htext, hblank, hfirst⟩ := exists_yearChars t.fields.date.year
  have hbegins : ∃ middle, t.formatChars = first :: middle ++ ['Z'] := by
    rw [formatChars, Fields.dateChars, htext]
    exact ⟨_, rfl⟩
  obtain ⟨middle, hmiddle⟩ := hbegins
  exact ⟨first, middle, hmiddle, hblank, hfirst⟩

theorem trimChars_formatChars (t : Instant) : trimChars t.formatChars = t.formatChars := by
  obtain ⟨first, middle, htext, hblank, -⟩ := t.exists_formatChars
  rw [htext]
  exact trimChars_eq_self hblank (by decide)

theorem isBlankText_format (t : Instant) : isBlankText t.format = false := by
  obtain ⟨first, middle, htext, hblank, -⟩ := t.exists_formatChars
  refine isBlankText_eq_false (c := first) ?_ hblank
  rw [format, String.toList_ofList, htext]
  exact List.mem_cons_self

/-- An instant is read back from an exact text. -/
theorem parse?_format (h : t.HasExactText) : parse? t.format = some t := by
  rw [parse?, format, String.toList_ofList, trimChars_formatChars, ofChars?_formatChars h]

/-- No leap second is read off the minute. -/
theorem onMinute_of_parse? {raw : String} (h : parse? raw = some t) : t.OnMinute := by
  obtain ⟨reading, -, hread⟩ := Option.bind_eq_some_iff.mp h
  unfold Reading.toInstant? at hread
  dsimp only at hread
  split at hread
  · split at hread
    · split at hread
      · rename_i hminute
        exact Option.some.inj hread ▸ hminute
      · cases hread
    · cases hread
  · cases hread

/-- The written form of an instant of another year is not a timestamp. -/
theorem parse?_format_eq_none (hyear : ¬ t.HasPlainYear) : parse? t.format = none := by
  obtain ⟨first, middle, htext, -, hplain | hnone⟩ := t.exists_formatChars
  · exact absurd hplain hyear
  · rw [parse?, format, String.toList_ofList, trimChars_formatChars, ofChars?, htext]
    have hfields : readFields? (first :: middle ++ ['Z']) = none := by
      rw [List.cons_append, readFields?, readFixed?, hnone]
      rfl
    rw [hfields]
    rfl

/-! ## Order -/

/-- The first time of day is the earlier one, by its hour, its minute, its second and its fraction
in this order. -/
def ClockPrecedes (s t : Instant) : Prop :=
  s.fields.hour < t.fields.hour ∨ (s.fields.hour = t.fields.hour ∧
    (s.fields.minute < t.fields.minute ∨ (s.fields.minute = t.fields.minute ∧
      (s.fields.second < t.fields.second ∨ (s.fields.second = t.fields.second ∧
        s.fields.micros < t.fields.micros)))))

/-- Second 60 comes behind every fraction of second 59 and before the next minute. -/
theorem clockPrecedes_iff (hs : s.HasExactText) (ht : t.HasExactText) :
    s.ClockPrecedes t ↔ s.seconds % 86400 < t.seconds % 86400 ∨
      (s.seconds % 86400 = t.seconds % 86400 ∧ s.nanos < t.nanos) := by
  obtain ⟨-, hminute, hsecond, hmicros⟩ := s.clock_le
  obtain ⟨-, hminute', hsecond', hmicros'⟩ := t.clock_le
  obtain ⟨-, hclock, -⟩ := clock_spec hs.minute
  obtain ⟨-, hclock', -⟩ := clock_spec ht.minute
  have hnanos := nanos_of_parts (toMicros_eq_self_iff.mp hs.micros) hs.minute
  have hnanos' := nanos_of_parts (toMicros_eq_self_iff.mp ht.micros) ht.minute
  unfold nanosPerSecond at hnanos hnanos'
  rw [ClockPrecedes, ← hnanos, ← hnanos']
  omega

/-- Exact texts are in the order of the instants. -/
theorem format_lt_format_iff (hs : s.HasExactText) (ht : t.HasExactText) :
    s.format < t.format ↔ s < t := by
  obtain ⟨hy, hmo, hd, hh, hmi, hse, hmic⟩ := parts_lt hs.year
  obtain ⟨hy', hmo', hd', hh', hmi', hse', hmic'⟩ := parts_lt ht.year
  have hparts : s.format < t.format ↔ s.fields.date.Precedes t.fields.date ∨
      (s.fields.date = t.fields.date ∧ s.ClockPrecedes t) := by
    rw [String.lt_iff, format, format, String.toList_ofList, String.toList_ofList,
      formatChars_eq hs.year, formatChars_eq ht.year]
    simp only [fixedDigits_append_lt_iff hy hy', fixedDigits_append_lt_iff hmo hmo',
      fixedDigits_append_lt_iff hd hd', fixedDigits_append_lt_iff hh hh',
      fixedDigits_append_lt_iff hmi hmi', fixedDigits_append_lt_iff hse hse',
      fixedDigits_append_lt_iff hmic hmic', List.cons_lt_cons_iff, Char.lt_irrefl, true_and,
      false_or, List.lt_irrefl, and_false, or_false]
    have hyears := hs.year.1
    have hyears' := ht.year.1
    rcases hsdate : s.fields.date with ⟨year, month, day⟩
    rcases htdate : t.fields.date with ⟨year', month', day'⟩
    simp only [hsdate, htdate] at hyears hyears'
    simp only [Date.Precedes, Date.mk.injEq, ClockPrecedes]
    omega
  have hdays : s.fields.date.toDays - t.fields.date.toDays =
      s.seconds / 86400 - t.seconds / 86400 := by
    rw [s.toDays_date, t.toDays_date]
    omega
  rw [hparts, Date.precedes_iff s.valid_date t.valid_date,
    ← Date.toDays_inj s.valid_date t.valid_date, clockPrecedes_iff hs ht, lt_iff]
  omega

theorem format_inj (hs : s.HasExactText) (ht : t.HasExactText) : s.format = t.format ↔ s = t := by
  constructor
  · intro h
    have hread := parse?_format hs
    rw [h, parse?_format ht] at hread
    exact (Option.some.inj hread).symm
  · exact fun h => by rw [h]

/-! ## Leap seconds off the minute -/

/-- The instant that the written form of an instant is of: a leap second behind another second than
the last of a minute has the written form of the second after it. -/
def asWritten (t : Instant) : Instant :=
  if t.OnMinute then t else
    { seconds := t.seconds + 1
      nanos := t.nanos - nanosPerSecond
      nanos_lt := Nat.lt_of_le_of_lt (Nat.sub_le _ _) t.nanos_lt }

theorem asWritten_of_onMinute (h : t.OnMinute) : t.asWritten = t := if_pos h

theorem onMinute_asWritten (t : Instant) : t.asWritten.OnMinute := by
  unfold asWritten
  split
  · assumption
  · intro hleap
    have hnanos : nanosPerSecond ≤ t.nanos - nanosPerSecond := hleap
    have hbound := t.nanos_lt
    unfold nanosPerSecond at hnanos hbound
    omega

theorem asWritten_eq_self_iff : t.asWritten = t ↔ t.OnMinute :=
  ⟨fun h => h ▸ t.onMinute_asWritten, asWritten_of_onMinute⟩

theorem fields_asWritten (t : Instant) : t.asWritten.fields = t.fields := by
  unfold asWritten
  split
  · rfl
  · rename_i hoff
    have hbound := t.nanos_lt
    unfold OnMinute at hoff
    unfold nanosPerSecond at hbound hoff
    -- The second after it is in the same minute.
    have hday : (t.seconds + 1) / 86400 = t.seconds / 86400 := by omega
    have hclock : ((t.seconds + 1) % 86400).toNat = (t.seconds % 86400).toNat + 1 := by omega
    simp only [fields, secondsPerDay, nanosPerSecond, hday, hclock, Fields.mk.injEq]
    refine ⟨trivial, ?_, ?_, ?_, ?_⟩
    · omega
    · omega
    · omega
    · omega

theorem format_asWritten (t : Instant) : t.asWritten.format = t.format := by
  rw [format, format, formatChars, formatChars, fields_asWritten]

theorem hasPlainYear_asWritten : t.asWritten.HasPlainYear ↔ t.HasPlainYear := by
  rw [HasPlainYear, HasPlainYear, fields_asWritten]

theorem toMicros_asWritten (h : t.toMicros = t) : t.asWritten.toMicros = t.asWritten := by
  rw [toMicros_eq_self_iff] at h ⊢
  unfold asWritten
  split
  · exact h
  · show (t.nanos - nanosPerSecond) % 1000 = 0
    unfold nanosPerSecond
    omega

theorem hasExactText_asWritten (hmicros : t.toMicros = t) (hyear : t.HasPlainYear) :
    t.asWritten.HasExactText :=
  ⟨toMicros_asWritten hmicros, hasPlainYear_asWritten.mpr hyear, t.onMinute_asWritten⟩

/-- An instant is read as the one that its written form is of. -/
theorem parse?_format_eq (hmicros : t.toMicros = t) (hyear : t.HasPlainYear) :
    parse? t.format = some t.asWritten := by
  rw [← format_asWritten, parse?_format (hasExactText_asWritten hmicros hyear)]

end RunLedger.Time.Instant
