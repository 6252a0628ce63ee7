/-
  Time/Calendar.lean --- days of the civil calendar.

  WHAT THIS FILE IS FOR.  Instants are counted in seconds and written as dates.
  Days are numbered from 1 January of the year 0 in the Gregorian calendar,
  which is taken to hold before its introduction and for negative years too.
-/

set_option autoImplicit false

namespace RunLedger.Time

/-- A year with 366 days. -/
def isLeapYear (year : Int) : Bool :=
  year % 4 == 0 && (year % 100 != 0 || year % 400 == 0)

/-- The number of days before the first of January of a year. -/
def daysBeforeYear (year : Int) : Int :=
  365 * year + (year + 3) / 4 - (year + 99) / 100 + (year + 399) / 400

/-- The number of days before the first of a month in a year that is not a leap year. -/
def daysBeforeMonth (month : Nat) : Nat :=
  match month with
  | 1 => 0
  | 2 => 31
  | 3 => 59
  | 4 => 90
  | 5 => 120
  | 6 => 151
  | 7 => 181
  | 8 => 212
  | 9 => 243
  | 10 => 273
  | 11 => 304
  | 12 => 334
  | _ => 365

/-- One when the month comes after the leap day of its year. -/
def leapShift (leap : Bool) (month : Nat) : Nat :=
  if leap && 2 < month then 1 else 0

/-- The number of days in a year before the first of a month. -/
def monthStart (leap : Bool) (month : Nat) : Nat :=
  daysBeforeMonth month + leapShift leap month

/-- The number of days of a month; the months are numbered from one. -/
def monthLength (leap : Bool) (month : Nat) : Nat :=
  monthStart leap (month + 1) - monthStart leap month

/-- A day of the calendar. -/
structure Date where
  year : Int
  month : Nat
  day : Nat
  deriving DecidableEq, Repr, Inhabited

namespace Date

/-- The date exists. -/
def Valid (date : Date) : Prop :=
  1 ≤ date.month ∧ date.month ≤ 12 ∧ 1 ≤ date.day ∧
    date.day ≤ monthLength (isLeapYear date.year) date.month

instance (date : Date) : Decidable date.Valid := by
  unfold Valid; infer_instance

/-- The number of the day. -/
def toDays (date : Date) : Int :=
  daysBeforeYear date.year + monthStart (isLeapYear date.year) date.month + date.day - 1

end Date

/-! ## From the number of a day to its date -/

/-- The year that holds a day: an estimate from the mean length of a year is off by one at
most. -/
def yearOfDays (days : Int) : Int :=
  let estimate := days * 400 / 146097
  if daysBeforeYear (estimate + 1) ≤ days then estimate + 1
  else if daysBeforeYear estimate ≤ days then estimate
  else estimate - 1

/-- The last month among the first `month` ones that begins on a day of the year or before. -/
def monthOfDay (leap : Bool) (dayOfYear : Nat) : (month : Nat) → Nat
  | 0 => 1
  | month + 1 =>
    if monthStart leap (month + 1) ≤ dayOfYear then month + 1
    else monthOfDay leap dayOfYear month

/-- The date of a day. -/
def Date.ofDays (days : Int) : Date :=
  let year := yearOfDays days
  let leap := isLeapYear year
  let dayOfYear := (days - daysBeforeYear year).toNat
  let month := monthOfDay leap dayOfYear 12
  ⟨year, month, dayOfYear - monthStart leap month + 1⟩

end RunLedger.Time
