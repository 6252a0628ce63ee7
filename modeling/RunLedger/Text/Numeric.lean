/-
  Text/Numeric.lean --- text that stands for a number.

  WHAT THIS FILE IS FOR.  A column of whole numbers keeps text that reads as a
  number as that number: as a whole one if it is whole and fits 64 bits, and as a
  real one otherwise.  Blanks around the number do not count; the point needs
  digits on one side only; an exponent needs digits.

  A number with a point or an exponent is not read exactly.  Its digits are kept
  as far as they fit 64 bits, so what comes behind some nineteen of them does not
  count, and the point is moved in rounded steps.
-/
import RunLedger.Decimal.Extended
import RunLedger.Text.Digit

set_option autoImplicit false

namespace RunLedger.Text

open RunLedger.Decimal

/-- The blanks that may surround a number: those of ASCII. -/
def isAsciiBlank (c : Char) : Bool :=
  c.toNat == 0x20 || (0x09 ≤ c.toNat && c.toNat ≤ 0x0D)

/-- A sign in front of a text, and the rest. -/
def readSign : List Char → Bool × List Char
  | '-' :: cs => (true, cs)
  | '+' :: cs => (false, cs)
  | cs => (false, cs)

/-- What a text says of a number. -/
structure Numeral where
  negative : Bool
  /-- the digits before the point -/
  whole : List Nat
  /-- the digits after the point, if there is one -/
  fraction : Option (List Nat)
  /-- the exponent, if there is one -/
  exponent : Option Int
  deriving DecidableEq, Repr, Inhabited

/-- The point and the digits after it, if there is one. -/
def readPoint : List Char → Option (List Nat) × List Char
  | '.' :: cs => (some (spanDigits cs).1, (spanDigits cs).2)
  | cs => (none, cs)

/-- The size of an exponent.  With a digit behind ten thousand or more it counts as ten thousand. -/
def exponentOf (digits : List Nat) : Nat :=
  digits.foldl (fun size digit => if size < 10000 then size * 10 + digit else 10000) 0

/-- The exponent, if there is one; none at all if it has no digits. -/
def readExponent? (cs : List Char) : Option (Option Int × List Char) :=
  let digitsOf (cs : List Char) : Option (Option Int × List Char) :=
    let (negative, cs) := readSign cs
    match spanDigits cs with
    | ([], _) => none
    | (digits, rest) =>
      let size : Int := exponentOf digits
      some (some (if negative then -size else size), rest)
  match cs with
  | 'e' :: cs => digitsOf cs
  | 'E' :: cs => digitsOf cs
  | _ => some (none, cs)

/-- The number that a text is from end to end, blanks aside. -/
def readNumeral? (s : String) : Option Numeral := do
  let (negative, cs) := readSign (s.toList.dropWhile isAsciiBlank)
  let (whole, cs) := spanDigits cs
  let (fraction, cs) := readPoint cs
  let (exponent, cs) ← readExponent? cs
  if cs.all isAsciiBlank && !(whole ++ fraction.getD []).isEmpty then
    return ⟨negative, whole, fraction, exponent⟩
  else none

namespace Numeral

/-- The number has neither point nor exponent. -/
def isPlain (n : Numeral) : Bool := n.fraction.isNone && n.exponent.isNone

/-- All digits as one number. -/
def digits (n : Numeral) : Nat := ofDigits (n.whole ++ n.fraction.getD [])

/-- The sign put in front of a magnitude. -/
def signed (n : Numeral) (magnitude : Nat) : Int :=
  if n.negative then -(magnitude : Int) else magnitude

/-! ## Kept digits -/

/-- Digits are kept while their number is below this. -/
def keptBelow : Nat := (twoPow 64 - 10) / 10

/-- A digit before the point.  One that is not kept counts as a power of ten. -/
def keepWhole (kept : Nat × Int) (digit : Nat) : Nat × Int :=
  if kept.1 < keptBelow then (kept.1 * 10 + digit, kept.2) else (kept.1, kept.2 + 1)

/-- A digit after the point.  One that is not kept is dropped. -/
def keepFraction (kept : Nat × Int) (digit : Nat) : Nat × Int :=
  if kept.1 < keptBelow then (kept.1 * 10 + digit, kept.2 - 1) else kept

/-- The number of the kept digits, and the power of ten that it is taken times. -/
def kept (n : Numeral) : Nat × Int :=
  let (significand, scale) := (n.fraction.getD []).foldl keepFraction (n.whole.foldl keepWhole (0, 0))
  (significand, n.exponent.getD 0 + scale)

/-- A number times powers of ten as long as it has room, and how many powers are left over. -/
def fillUp : (power significand : Nat) → Nat × Nat
  | 0, significand => (significand, 0)
  | power + 1, significand =>
    if significand < (twoPow 64 - 1) / 10 then fillUp power (significand * 10)
    else (significand, power + 1)

/-- A number without zeros at its end, up to `power` of them, and how many powers are left over. -/
def trim : (power significand : Nat) → Nat × Nat
  | 0, significand => (significand, 0)
  | power + 1, significand =>
    if significand % 10 = 0 then trim power (significand / 10) else (significand, power + 1)

/-- The magnitude as a whole number, if it is one and not far beyond 64 bits. -/
def wholeMagnitude? (n : Numeral) : Option Nat :=
  match n.kept with
  | (0, _) => some 0
  | (significand, .ofNat power) =>
    match fillUp power significand with
    | (filled, 0) => Extended.toWhole? ⟨filled, 0⟩
    | _ => none
  | (significand, .negSucc power) =>
    let (trimmed, left) := trim (power + 1) significand
    (Extended.scaleDown left ⟨trimmed, 0⟩).toWhole?

/-- The whole number of 64 bits that a number is kept as, if it is.  A number with a point or an
exponent, or with too many digits, is rounded first, and is not kept as the least or the greatest
whole number. -/
def toWhole? (n : Numeral) : Option Int :=
  let plain := n.signed n.digits
  let bound : Int := twoPow 63
  if n.isPlain && decide (-bound ≤ plain ∧ plain < bound) then some plain
  else
    n.wholeMagnitude?.bind fun magnitude =>
      let value := n.signed magnitude
      if -bound < value ∧ value < bound - 1 then some value else none

end Numeral

end RunLedger.Text
