/-
  Decimal/Shortest.lean --- the fewest decimal digits that identify a number.

  WHAT THIS FILE IS FOR.  Every binary64 number owns an interval of decimals
  that are nearer to it than to its neighbours.  The number is written with the
  fewest digits that reach into that interval; of two decimals with as few
  digits, the nearer one is taken, and of two that are as near the even one.

  HOW IT IS FOUND.  For 1, 2, ... 17 digits the number lies between two
  neighbouring decimals of that many digits.  The first digit count for which
  one of the two is in the interval wins.  All comparisons are between natural
  numbers: magnitudes are counted in quarters of a unit, and both sides are
  scaled until the power of ten is whole.
-/
import RunLedger.Decimal.Binary64

set_option autoImplicit false

namespace RunLedger.Decimal

/-- A positive decimal: `digits * 10 ^ exponent`. -/
structure Shortest where
  digits : Nat
  exponent : Int
  deriving DecidableEq, Repr, Inhabited

/-- The interval of a magnitude, in quarters of a unit.  The gap below the least significand
of a spacing is half as wide as the gap above it. -/
structure Interval where
  low : Nat
  middle : Nat
  high : Nat
  /-- an even significand owns the ends of its interval too -/
  closed : Bool
  deriving DecidableEq, Repr, Inhabited

/-- The interval of decimals that are read as this magnitude. -/
def intervalOf (rank : Nat) : Interval :=
  let spacing := twoPow (doublings rank)
  let middle := 4 * units rank
  let narrow := significand rank = twoPow 52 && doublings rank ≠ 0
  ⟨middle - (if narrow then spacing else 2 * spacing), middle, middle + 2 * spacing,
    significand rank % 2 = 0⟩

/-- Quarters of a unit in one. -/
def quarters : Nat := twoPow 1076

/-- Decimal places that make every decimal considered here whole. -/
def placesMax : Nat := 340

/-- Whether `count` steps of `step`, both scaled by `quarters`, reach into the scaled interval. -/
def Interval.reaches (i : Interval) (count step : Nat) : Bool :=
  let at_ := count * step * quarters
  let low := i.low * tenPow placesMax
  let high := i.high * tenPow placesMax
  if i.closed then low ≤ at_ && at_ ≤ high else low < at_ && at_ < high

/-- The decimal on the grid of `step` that is to stand for the middle of the interval. -/
def Interval.onGrid? (i : Interval) (step : Nat) : Option Nat :=
  let middle := i.middle * tenPow placesMax
  let below := middle / (step * quarters)
  match i.reaches below step, i.reaches (below + 1) step with
  | true, false => some below
  | false, true => some (below + 1)
  | true, true =>
    let twice := 2 * (middle % (step * quarters))
    if twice < step * quarters then some below
    else if step * quarters < twice then some (below + 1)
    else some (below + below % 2)
  | false, false => none

/-- Tries `digits` digits, then one more, and so on, for a number whose first digit has the
place `place` after scaling by `placesMax`. -/
def Interval.search (i : Interval) : (tries digits place : Nat) → Shortest
  | 0, _, _ => ⟨0, 0⟩
  | tries + 1, digits, place =>
    let gridPlace := place + 1 - digits
    match i.onGrid? (tenPow gridPlace) with
    | some count => ⟨count, (gridPlace : Int) - placesMax⟩
    | none => i.search tries (digits + 1) place

/-- Zeros at the end of the digits moved into the exponent. -/
def Shortest.strip : (fuel : Nat) → Shortest → Shortest
  | 0, s => s
  | fuel + 1, s =>
    if s.digits ≠ 0 ∧ s.digits % 10 = 0 then strip fuel ⟨s.digits / 10, s.exponent + 1⟩ else s

/-- The shortest decimal of a positive magnitude. -/
def shortest (rank : Nat) : Shortest :=
  let i := intervalOf rank
  let place := (Nat.toDigits 10 (i.middle * tenPow placesMax / quarters)).length - 1
  (i.search 17 1 place).strip 17

end RunLedger.Decimal
