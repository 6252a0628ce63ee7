/-
  Decimal/Scaled.lean --- reading a decimal number by scaling.

  WHAT THIS FILE IS FOR.  A decimal text is read in rounded steps: its leading
  digits, as far as they fit 64 bits, are rounded to binary64, and the result is
  multiplied or divided by the rounded power of ten that the other digits and
  the exponent ask for.  Each step rounds to nearest, so the answer is the
  nearest number whenever the digits and the power are exact, and may be a
  neighbour of it otherwise.  Written numbers are read again by this rule, so
  the rule and not the nearest number is what readers of old text agree on.
-/
import RunLedger.Decimal.Binary64

set_option autoImplicit false

namespace RunLedger.Decimal

/-- Digits gathered so far: `significand * 10 ^ exponent`. -/
structure Scaled where
  significand : Nat
  exponent : Int
  /-- a digit has been left out because the significand had no room for it -/
  full : Bool
  deriving DecidableEq, Repr, Inhabited

namespace Scaled

/-- No digit yet. -/
def start : Scaled := ⟨0, 0, false⟩

/-- The largest significand that is kept exactly. -/
def significandMax : Nat := twoPow 64 - 1

/-- Whether one more digit still fits the significand. -/
def hasRoom (s : Scaled) (digit : Nat) : Bool :=
  !s.full && s.significand * 10 + digit ≤ significandMax

/-- A digit before the point.  One without room counts as a power of ten. -/
def pushWhole (s : Scaled) (digit : Nat) : Scaled :=
  if s.hasRoom digit then ⟨s.significand * 10 + digit, s.exponent, false⟩
  else ⟨s.significand, s.exponent + 1, true⟩

/-- A digit after the point.  One without room is dropped, and so are all after it. -/
def pushFraction (s : Scaled) (digit : Nat) : Scaled :=
  if s.hasRoom digit then ⟨s.significand * 10 + digit, s.exponent - 1, false⟩
  else { s with full := true }

/-- The digits of a number: those before the point, then those after it.  The first digit
after the point looks for room anew. -/
def ofDigits (whole fraction : List Nat) : Scaled :=
  fraction.foldl pushFraction { whole.foldl pushWhole start with full := false }

/-! ## From scaled digits to a magnitude -/

/-- The rank of a power of ten. -/
def powerRank (n : Nat) : Nat := rankOfRatio (tenPow n) 1

/-- A magnitude times a power of ten. -/
def timesPower (rank n : Nat) : Nat :=
  rankOfRatio (units rank * units (powerRank n)) (twoPow 2148)

/-- A magnitude divided by a power of ten. -/
def overPower (rank n : Nat) : Nat :=
  rankOfRatio (units rank) (units (powerRank n))

/-- The largest power of ten that is a finite number. -/
def powerMax : Nat := 308

/-- A magnitude divided by ten `n` times over, in steps of the largest power.  Zero stays zero,
so few steps are ever needed. -/
def divideDown : (steps rank n : Nat) → Nat
  | 0, rank, n => overPower rank n
  | steps + 1, rank, n =>
    if n ≤ powerMax then overPower rank n
    else if rank = 0 then 0
    else divideDown steps (overPower rank powerMax) (n - powerMax)

/-- The number that scaled digits are read as, unless it is too large. -/
def toBinary64? (s : Scaled) (negative : Bool) : Option Binary64 :=
  let rank := rankOfRatio s.significand 1
  match s.exponent with
  | .ofNat n =>
    if n ≤ powerMax then Binary64.ofRank? negative (timesPower rank n)
    else if rank = 0 then Binary64.ofRank? negative 0
    else none
  | .negSucc n => Binary64.ofRank? negative (divideDown (n / powerMax + 1) rank (n + 1))

end Scaled

end RunLedger.Decimal
