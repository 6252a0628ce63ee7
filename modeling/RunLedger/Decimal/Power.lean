/-
  Decimal/Power.lean --- powers of two and of ten.

  WHAT THIS FILE IS FOR.  Binary magnitudes are spaced by powers of two and
  decimal ones by powers of ten.
-/

set_option autoImplicit false

namespace RunLedger.Decimal

/-- Two to the power `n`. -/
abbrev twoPow (n : Nat) : Nat := Nat.pow 2 n

/-- Ten to the power `n`. -/
abbrev tenPow (n : Nat) : Nat := Nat.pow 10 n

end RunLedger.Decimal
