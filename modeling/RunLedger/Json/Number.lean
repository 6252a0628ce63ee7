/-
  Json/Number.lean --- the text of a number.

  WHAT THIS FILE IS FOR.  Numbers inside payloads are hashed as text.  A whole
  number is its decimal digits.  A binary64 number is its shortest decimal,
  written positionally while its first digit stands between the fifth place
  after the point and the sixteenth before it, and with a signed exponent
  otherwise; a positional text always has a point, so that it is never mistaken
  for a whole number.
-/
import RunLedger.Json.Basic
import RunLedger.Decimal.Shortest

set_option autoImplicit false

namespace RunLedger.Json

open RunLedger.Decimal

/-- The least place of a first digit that is written positionally. -/
def positionalLow : Int := -5

/-- The least place of a first digit that is too high to be written positionally. -/
def positionalHigh : Int := 16

/-- The digits of a natural number. -/
def natChars (n : Nat) : List Char := Nat.toDigits 10 n

/-- The digits of a whole number, after its sign if it is negative. -/
def intChars (n : Int) : List Char :=
  if n < 0 then '-' :: natChars n.natAbs else natChars n.natAbs

/-- Digits with a point after the first `whole` of them; zeros fill what is missing. -/
def pointedChars (digits : List Char) (whole : Nat) : List Char :=
  let shortage := List.replicate (whole - digits.length) '0'
  let fraction := digits.drop whole
  digits.take whole ++ shortage ++ '.' :: (if fraction.isEmpty then ['0'] else fraction)

/-- The digits of a decimal whose first digit has the place `place` (0 for ones). -/
def placedChars (digits : List Char) (place : Int) : List Char :=
  if positionalLow ≤ place ∧ place < positionalHigh then
    match place with
    | .ofNat n => pointedChars digits (n + 1)
    | .negSucc n => '0' :: '.' :: (List.replicate n '0' ++ digits)
  else
    let mantissa :=
      match digits with
      | first :: second :: rest => first :: '.' :: second :: rest
      | short => short
    mantissa ++ 'e' :: (if place < 0 then '-' else '+') :: natChars place.natAbs

/-- The text of a magnitude. -/
def magnitudeChars (rank : Nat) : List Char :=
  if rank = 0 then ['0', '.', '0']
  else
    let s := shortest rank
    let digits := natChars s.digits
    placedChars digits (s.exponent + digits.length - 1)

/-- The text of a binary64 number. -/
def realChars (x : Binary64) : List Char :=
  if x.negative then '-' :: magnitudeChars x.rank else magnitudeChars x.rank

/-- The text of a number. -/
def Number.chars : Number → List Char
  | .whole n => intChars n
  | .real x => realChars x

end RunLedger.Json
