/-
  Time/Timestamp.lean --- instants as text.

  WHAT THIS FILE IS FOR.  Timestamps are exchanged in the format of RFC 3339.
  What is written is always in UTC, with microseconds and a final `Z`; every
  field has a fixed width, so for the years 0000 to 9999 texts are in the order
  of their instants.  The second of an instant inside a leap second is written as
  the one behind it, which is second 60 if the leap second ends a minute and an
  ordinary second otherwise.  What is read may have any offset and any precision.
-/
import RunLedger.Time.Instant
import RunLedger.Text.Blank
import RunLedger.Text.Digit

set_option autoImplicit false

namespace RunLedger.Time

open RunLedger.Text

/-! ## Fields of an instant -/

/-- Seconds in a day. -/
def secondsPerDay : Int := 86400

/-- The date and the time of day of an instant, as they are written. -/
structure Fields where
  date : Date
  hour : Nat
  minute : Nat
  /-- 60 inside a leap second that ends a minute -/
  second : Nat
  micros : Nat
  deriving DecidableEq, Repr, Inhabited

namespace Instant

/-- The fields of an instant in UTC. -/
def fields (t : Instant) : Fields :=
  let secondOfDay := (t.seconds % secondsPerDay).toNat
  { date := Date.ofDays (t.seconds / secondsPerDay + daysBeforeYear 1970)
    hour := secondOfDay / 3600
    minute := secondOfDay / 60 % 60
    second := secondOfDay % 60 + t.nanos / nanosPerSecond
    micros := t.nanos % nanosPerSecond / 1000 }

end Instant

/-! ## Writing -/

/-- A year: four digits, or a sign and at least four digits outside 0000 to 9999. -/
def yearChars (year : Int) : List Char :=
  if 0 ≤ year ∧ year ≤ 9999 then fixedDigits 4 year.toNat
  else
    let digits := Nat.toDigits 10 year.natAbs
    (if year < 0 then '-' else '+') :: (List.replicate (4 - digits.length) '0' ++ digits)

namespace Fields

/-- The date: year, month and day. -/
def dateChars (f : Fields) : List Char :=
  yearChars f.date.year ++ '-' :: fixedDigits 2 f.date.month ++ '-' :: fixedDigits 2 f.date.day

/-- The time of day to the second. -/
def clockChars (f : Fields) : List Char :=
  fixedDigits 2 f.hour ++ ':' :: fixedDigits 2 f.minute ++ ':' :: fixedDigits 2 f.second

end Fields

namespace Instant

/-- The written form of an instant. -/
def formatChars (t : Instant) : List Char :=
  let f := t.fields
  f.dateChars ++ 'T' :: f.clockChars ++ '.' :: fixedDigits 6 f.micros ++ ['Z']

/-- The written form of an instant. -/
def format (t : Instant) : String := String.ofList t.formatChars

/-- The written form without its punctuation, for use inside identifiers. -/
def unpunctuated (t : Instant) : String :=
  String.ofList (t.formatChars.filter fun c => c != '-' && c != ':' && c != '.')

/-- Date and time to the second, for columns of a table. -/
def toTheSecond (t : Instant) : String :=
  let f := t.fields
  String.ofList (f.dateChars ++ ' ' :: f.clockChars)

end Instant

/-! ## Reading -/

/-- The rest of a text behind a character that is due. -/
def expectChar? (c : Char) : List Char → Option (List Char)
  | [] => none
  | d :: cs => if d = c then some cs else none

/-- The fraction of a second in nanoseconds, if a point introduces one: at least one digit, of
which those after the ninth do not count. -/
def readFraction? (cs : List Char) : Option (Nat × List Char) :=
  match cs with
  | '.' :: cs =>
    match spanDigits cs with
    | ([], _) => none
    | (digits, rest) => some (ofDigits ((digits ++ List.replicate 9 0).take 9), rest)
  | _ => some (0, cs)

/-- The offset from UTC in seconds: `Z`, or a sign, hours and minutes. -/
def readOffset? (cs : List Char) : Option (Int × List Char) :=
  let clock (sign : Int) (cs : List Char) : Option (Int × List Char) := do
    let (hours, cs) ← readFixed? 2 0 cs
    let cs ← expectChar? ':' cs
    let (minutes, cs) ← readFixed? 2 0 cs
    if hours ≤ 23 ∧ minutes ≤ 59 then
      return (sign * (hours * 3600 + minutes * 60), cs)
    else none
  match cs with
  | 'Z' :: cs => some (0, cs)
  | 'z' :: cs => some (0, cs)
  | '+' :: cs => clock 1 cs
  | '-' :: cs => clock (-1) cs
  | '\u2212' :: cs => clock (-1) cs
  | _ => none

/-- What is read of a timestamp: the fields, still local, and the offset. -/
structure Reading where
  date : Date
  hour : Nat
  minute : Nat
  second : Nat
  nanos : Nat
  offset : Int
  deriving DecidableEq, Repr, Inhabited

/-- The fields of a timestamp that is written from end to end. -/
def readFields? (cs : List Char) : Option Reading := do
  let (year, cs) ← readFixed? 4 0 cs
  let cs ← expectChar? '-' cs
  let (month, cs) ← readFixed? 2 0 cs
  let cs ← expectChar? '-' cs
  let (day, cs) ← readFixed? 2 0 cs
  let cs ←
    match cs with
    | 'T' :: cs => some cs
    | 't' :: cs => some cs
    | ' ' :: cs => some cs
    | _ => none
  let (hour, cs) ← readFixed? 2 0 cs
  let cs ← expectChar? ':' cs
  let (minute, cs) ← readFixed? 2 0 cs
  let cs ← expectChar? ':' cs
  let (second, cs) ← readFixed? 2 0 cs
  let (nanos, cs) ← readFraction? cs
  let (offset, cs) ← readOffset? cs
  if cs.isEmpty then some ⟨⟨year, month, day⟩, hour, minute, second, nanos, offset⟩ else none

namespace Reading

/-- Seconds since 1970 in UTC of the second before the fraction; second 60 is counted as the
fraction of second 59. -/
def seconds (r : Reading) : Int :=
  (r.date.toDays - daysBeforeYear 1970) * secondsPerDay + r.hour * 3600 + r.minute * 60 +
    min r.second 59 - r.offset

/-- The fraction in nanoseconds, second 60 included. -/
def fraction (r : Reading) : Nat :=
  (r.second - 59) * nanosPerSecond + r.nanos

/-- The instant of a date and a time of day that exist.  Second 60 ends a minute, and offsets are
of whole minutes, so no leap second is read off the minute. -/
def toInstant? (r : Reading) : Option Instant :=
  if r.date.Valid ∧ r.hour ≤ 23 ∧ r.minute ≤ 59 ∧ r.second ≤ 60 then
    if h : r.fraction < 2 * nanosPerSecond then
      let t : Instant := ⟨r.seconds, r.fraction, h⟩
      if t.OnMinute then some t else none
    else none
  else none

end Reading

namespace Instant

/-- The instant that a text without blanks around it writes. -/
def ofChars? (cs : List Char) : Option Instant :=
  (readFields? cs).bind Reading.toInstant?

/-- The instant that a text writes. -/
def parse? (raw : String) : Option Instant :=
  ofChars? (trimChars raw.toList)

/-- What a caller is told whose text is not a timestamp. -/
def refusal (raw : String) : String :=
  "timestamp must be RFC 3339 and include timezone information: '" ++ raw ++ "'"

end Instant

end RunLedger.Time
