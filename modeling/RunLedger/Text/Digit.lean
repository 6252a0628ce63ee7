/-
  Text/Digit.lean --- decimal digits.

  WHAT THIS FILE IS FOR.  Numbers and timestamps are read and written digit by
  digit.  Only the ten ASCII digits are digits here.
-/

set_option autoImplicit false

namespace RunLedger.Text

/-- The character of a decimal digit; of a larger number, of its last digit. -/
def digitChar (n : Nat) : Char := Char.ofNat (48 + n % 10)

/-- The value of a decimal digit. -/
def digitValue? (c : Char) : Option Nat :=
  if '0' ≤ c ∧ c ≤ '9' then some (c.toNat - 48) else none

/-- Whether a character is a decimal digit. -/
def isDigit (c : Char) : Bool := (digitValue? c).isSome

/-- The last `width` decimal digits of a number. -/
def fixedDigits : (width n : Nat) → List Char
  | 0, _ => []
  | width + 1, n => fixedDigits width (n / 10) ++ [digitChar n]

/-- A number of exactly `width` digits in front of a text, appended to the digits `soFar`, and
the rest of the text. -/
def readFixed? : (width soFar : Nat) → List Char → Option (Nat × List Char)
  | 0, soFar, cs => some (soFar, cs)
  | _ + 1, _, [] => none
  | width + 1, soFar, c :: cs =>
    match digitValue? c with
    | some d => readFixed? width (soFar * 10 + d) cs
    | none => none

/-- The decimal digits in front of a text, and the rest. -/
def spanDigits : List Char → List Nat × List Char
  | [] => ([], [])
  | c :: cs =>
    match digitValue? c with
    | some d => (d :: (spanDigits cs).1, (spanDigits cs).2)
    | none => ([], c :: cs)

/-- The natural number with these decimal digits. -/
def ofDigits (digits : List Nat) : Nat :=
  digits.foldl (fun n d => n * 10 + d) 0

end RunLedger.Text
