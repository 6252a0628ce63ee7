/-
  Time/Instant.lean --- points in time.

  WHAT THIS FILE IS FOR.  Events are ordered by when they happened.  An instant
  is a count of seconds since 1970 and a fraction in nanoseconds.  Inside a leap
  second the fraction runs on from one to two seconds, so that a leap second lies
  between two ordinary ones and the order of instants is the order of their pairs
  of numbers.

  A leap second on a clock is second 60 of a minute, behind second 59.  An instant
  that is put together from its numbers may as well have a leap second behind any
  other second; `OnMinute` says that it does not.

  Seconds are not bounded here.  Where some milliseconds are added to an instant,
  the sum is taken to be in the range of a clock.
-/
import RunLedger.Time.Calendar

set_option autoImplicit false

namespace RunLedger.Time

/-- Nanoseconds in a second. -/
def nanosPerSecond : Nat := 1000000000

/-- A point in time. -/
structure Instant where
  /-- seconds since the start of 1970 -/
  seconds : Int
  /-- nanoseconds since then -/
  nanos : Nat
  /-- a leap second is the longest second there is -/
  nanos_lt : nanos < 2 * nanosPerSecond
  deriving DecidableEq, Repr

namespace Instant

/-- The start of 1970. -/
def epoch : Instant := ⟨0, 0, by decide⟩

instance : Inhabited Instant := ⟨epoch⟩

/-- A leap second that the instant is in is the last one of its minute. -/
def OnMinute (t : Instant) : Prop := nanosPerSecond ≤ t.nanos → t.seconds % 60 = 59

instance (t : Instant) : Decidable t.OnMinute := by
  unfold OnMinute; infer_instance

/-! ## Order -/

/-- The first instant is earlier. -/
def Before (s t : Instant) : Prop :=
  s.seconds < t.seconds ∨ (s.seconds = t.seconds ∧ s.nanos < t.nanos)

instance (s t : Instant) : Decidable (Before s t) := by
  unfold Before; infer_instance

instance : LT Instant := ⟨Before⟩

instance : LE Instant := ⟨fun s t => ¬ t < s⟩

instance (s t : Instant) : Decidable (s < t) :=
  inferInstanceAs (Decidable (Before s t))

instance (s t : Instant) : Decidable (s ≤ t) :=
  inferInstanceAs (Decidable (¬ Before t s))

/-- The later of two instants. -/
def latest (s t : Instant) : Instant := if s < t then t else s

/-! ## Precision -/

/-- The instant without what is finer than a microsecond. -/
def toMicros (t : Instant) : Instant where
  seconds := t.seconds
  nanos := t.nanos - t.nanos % 1000
  nanos_lt := Nat.lt_of_le_of_lt (Nat.sub_le _ _) t.nanos_lt

/-! ## Moving in time -/

/-- An ordinary instant from seconds and any number of nanoseconds. -/
def ofNanos (seconds nanos : Int) : Instant where
  seconds := seconds + nanos / 1000000000
  nanos := (nanos % 1000000000).toNat
  nanos_lt := by unfold nanosPerSecond; omega

/-- The instant some milliseconds later, or earlier if they are negative.  From inside a leap
second a short move stays inside it; a longer one counts the leap second like any other. -/
def addMillis (t : Instant) (millis : Int) : Instant :=
  let wholeSeconds := millis.tdiv 1000
  let moved : Int := t.nanos + millis.tmod 1000 * 1000000
  if t.nanos < nanosPerSecond then ofNanos (t.seconds + wholeSeconds) moved
  else if 0 < wholeSeconds ∨ 2 * (nanosPerSecond : Int) ≤ moved then
    ofNanos (t.seconds + wholeSeconds) (moved - nanosPerSecond)
  else if wholeSeconds < 0 then
    ofNanos (t.seconds + wholeSeconds + 1) (moved - nanosPerSecond)
  else if h : (nanosPerSecond : Int) ≤ moved ∧ moved < 2 * nanosPerSecond then
    ⟨t.seconds, moved.toNat, by omega⟩
  else ofNanos t.seconds moved

end Instant

end RunLedger.Time
