/-
  Text/Hexadecimal.lean --- numbers in base sixteen.

  WHAT THIS FILE IS FOR.  Digests, control characters and the tokens inside
  generated identifiers are written in lower-case hexadecimal of a fixed width.
-/

set_option autoImplicit false

namespace RunLedger.Text

/-- The lower-case hexadecimal digit of a number below sixteen. -/
def hexDigit (n : Nat) : Char :=
  if n < 10 then Char.ofNat (48 + n) else Char.ofNat (87 + n)

/-- The last `count` hexadecimal digits of a number. -/
def hexChars (n : Nat) : (count : Nat) → List Char
  | 0 => []
  | count + 1 => hexDigit (n / 16 ^ count % 16) :: hexChars n count

end RunLedger.Text
