/-
  Decimal/Binary64.lean --- finite binary64 numbers, in exact arithmetic.

  WHAT THIS FILE IS FOR.  A confidence is a binary64 number, and its text is
  hashed, so every bit of it counts.  The finite magnitudes are counted upward
  from zero; a number is its sign together with the RANK of its magnitude in
  that count.  The rank is also the bit pattern without the sign bit, and the
  order of ranks is the order of magnitudes.

  All arithmetic is on natural numbers.  A magnitude is a whole number of UNITS,
  a unit being the least positive magnitude, 2^-1074; `rankOfRatio` rounds a
  quotient of natural numbers to the nearest magnitude, a half going to the even
  neighbour.
-/
import RunLedger.Decimal.Power

set_option autoImplicit false

namespace RunLedger.Decimal

/-- How many finite magnitudes there are. -/
def magnitudeCount : Nat := 2047 * twoPow 52

/-- A finite binary64 number. -/
structure Binary64 where
  /-- whether the sign is minus; zero has both signs -/
  negative : Bool
  /-- the place of the magnitude among the finite magnitudes -/
  rank : Nat
  /-- the magnitude is finite -/
  rank_lt : rank < magnitudeCount
  deriving DecidableEq, Repr

namespace Binary64

/-- The number zero with the sign plus. -/
def zero : Binary64 := ⟨false, 0, by decide⟩

instance : Inhabited Binary64 := ⟨zero⟩

end Binary64

/-! ## Magnitudes as whole numbers of units -/

/-- How many times the spacing of the magnitudes has doubled below this rank. -/
def doublings (rank : Nat) : Nat := rank / twoPow 52 - 1

/-- The magnitude counted in its own spacing. -/
def significand (rank : Nat) : Nat :=
  if rank < twoPow 52 then rank else twoPow 52 + rank % twoPow 52

/-- The magnitude counted in units of 2^-1074. -/
def units (rank : Nat) : Nat := significand rank * twoPow (doublings rank)

/-- `num / den` to the nearest whole number, a half to the even one. -/
def roundHalfEven (num den : Nat) : Nat :=
  let quotient := num / den
  let twice := 2 * (num % den)
  if twice < den then quotient
  else if den < twice then quotient + 1
  else quotient + quotient % 2

/-- The rank of the magnitude nearest to `num / den`, a half to the even rank.
Magnitudes beyond the finite ones are counted on in the same way. -/
def rankOfRatio (num den : Nat) : Nat :=
  let scaled := num * twoPow 1074
  let doubled := (scaled / den).log2 - 52
  roundHalfEven scaled (den * twoPow doubled) + doubled * twoPow 52

namespace Binary64

/-- The number with this sign and rank, when the rank is a finite one. -/
def ofRank? (negative : Bool) (rank : Nat) : Option Binary64 :=
  if h : rank < magnitudeCount then some ⟨negative, rank, h⟩ else none

/-- The number nearest to a whole number, when that is finite. -/
def ofInt? (n : Int) : Option Binary64 :=
  ofRank? (n < 0) (rankOfRatio n.natAbs 1)

/-- Whether the number lies between zero and one, the ends included. -/
def isUnitInterval (x : Binary64) : Bool :=
  (!x.negative || x.rank == 0) && x.rank ≤ 1023 * twoPow 52

end Binary64

end RunLedger.Decimal
