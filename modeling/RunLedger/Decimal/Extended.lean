/-
  Decimal/Extended.lean --- scaling in numbers of 64 significant bits.

  WHAT THIS FILE IS FOR.  A column of whole numbers asks of a decimal text which
  whole number it is, if it is one.  Digits after the point are scaled away in
  steps: by a hundred powers of ten at a time, then by ten, then by one.  Each
  step multiplies with a rounded negative power of ten and rounds to 64
  significant bits, a half going to the even neighbour, and the outcome is
  rounded once more, to the 53 bits of binary64.  So digits far behind the
  point may be lost, and which ones are lost is part of the rule.
-/
import RunLedger.Decimal.Binary64

set_option autoImplicit false

namespace RunLedger.Decimal

/-- The magnitude `significand * 2 ^ exponent`. -/
structure Extended where
  significand : Nat
  exponent : Int
  deriving DecidableEq, Repr, Inhabited

namespace Extended

/-- The magnitude with at most `bits` significant bits that is nearest, a half to the even one. -/
def rounded (bits : Nat) (x : Extended) : Extended :=
  let surplus := x.significand.log2 + 1 - bits
  ⟨roundHalfEven x.significand (twoPow surplus), x.exponent + surplus⟩

/-- The product, rounded to 64 significant bits. -/
def times (x y : Extended) : Extended :=
  rounded 64 ⟨x.significand * y.significand, x.exponent + y.exponent⟩

/-- The power `10 ^ -n`, rounded to 64 significant bits. -/
def tenth (n : Nat) : Extended :=
  let shift := (tenPow n).log2 + 64
  ⟨roundHalfEven (twoPow shift) (tenPow n), -(shift : Int)⟩

/-- The product with a factor, `count` times over. -/
def timesEach (factor : Extended) : (count : Nat) → Extended → Extended
  | 0, x => x
  | count + 1, x => timesEach factor count (x.times factor)

/-- The magnitude with the point moved `n` digits to the left, in the largest steps first. -/
def scaleDown (n : Nat) (x : Extended) : Extended :=
  timesEach (tenth 1) (n % 10)
    (timesEach (tenth 10) (n % 100 / 10) (timesEach (tenth 100) (n / 100) x))

/-- The magnitude is too small for a binary64 number other than zero. -/
def isNegligible (x : Extended) : Bool :=
  match x.exponent with
  | .ofNat _ => x.significand == 0
  | .negSucc n => x.significand * twoPow 1075 ≤ twoPow (n + 1)

/-- The whole number that the nearest binary64 number is, if it is one. -/
def toWhole? (x : Extended) : Option Nat :=
  if x.isNegligible then some 0
  else
    let nearest := x.rounded 53
    match nearest.exponent with
    | .ofNat n => some (nearest.significand * twoPow n)
    | .negSucc n =>
      if nearest.significand % twoPow (n + 1) = 0 then
        some (nearest.significand / twoPow (n + 1))
      else none

end Extended

end RunLedger.Decimal
