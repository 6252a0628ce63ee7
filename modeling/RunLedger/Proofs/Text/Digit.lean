/-
  Proofs/Text/Digit.lean --- numbers of a fixed number of digits.

  WHAT THIS FILE IS FOR.  A number that is written with a fixed number of digits
  is read back from the front of a text, whatever follows it, and texts that begin
  with such numbers are in the order of the numbers.
-/
import Mathlib.Algebra.Group.Nat.Defs
import RunLedger.Text.Digit

set_option autoImplicit false

namespace RunLedger.Text

/-! ## Reading back -/

theorem digitValue?_digitChar (n : Nat) : digitValue? (digitChar n) = some (n % 10) := by
  have h : ∀ d < 10, digitValue? (Char.ofNat (48 + d)) = some d := by decide
  exact h (n % 10) (Nat.mod_lt n (by decide))

/-- The digits of a number are read in two parts. -/
theorem readFixed?_add (first second soFar : Nat) (cs : List Char) :
    readFixed? (first + second) soFar cs =
      (readFixed? first soFar cs).bind fun read => readFixed? second read.1 read.2 := by
  induction first generalizing soFar cs with
  | zero => rw [Nat.zero_add]; rfl
  | succ first ih =>
    rw [Nat.add_right_comm]
    cases cs with
    | nil => rfl
    | cons c cs =>
      simp only [readFixed?]
      cases digitValue? c with
      | none => rfl
      | some d => exact ih _ cs

/-- Of a number of a fixed number of digits, its last digits are read back. -/
theorem readFixed?_fixedDigits_mod (width soFar n : Nat) (rest : List Char) :
    readFixed? width soFar (fixedDigits width n ++ rest) =
      some (soFar * 10 ^ width + n % 10 ^ width, rest) := by
  induction width generalizing n rest with
  | zero => simp [fixedDigits, readFixed?, Nat.mod_one]
  | succ width ih =>
    have hlast : n % 10 ^ (width + 1) = n / 10 % 10 ^ width * 10 + n % 10 := by
      rw [Nat.pow_succ, Nat.mul_comm, Nat.mod_mul]
      omega
    rw [fixedDigits, List.append_assoc, readFixed?_add width 1, ih, Option.bind_some]
    simp only [List.cons_append, List.nil_append, readFixed?, digitValue?_digitChar]
    rw [hlast, Nat.pow_succ, Nat.add_mul, Nat.mul_assoc, Nat.add_assoc]

/-- A number is read back if it has no more digits than are written. -/
theorem readFixed?_fixedDigits {width n : Nat} (h : n < 10 ^ width) (rest : List Char) :
    readFixed? width 0 (fixedDigits width n ++ rest) = some (n, rest) := by
  rw [readFixed?_fixedDigits_mod, Nat.zero_mul, Nat.zero_add, Nat.mod_eq_of_lt h]

theorem ofDigits_concat (digits : List Nat) (d : Nat) :
    ofDigits (digits ++ [d]) = ofDigits digits * 10 + d := by
  simp [ofDigits]

/-- The digits in front of a text are as many as were written, and those that follow. -/
theorem exists_spanDigits_fixedDigits (width n : Nat) (rest : List Char) :
    ∃ digits, digits.length = width ∧ ofDigits digits = n % 10 ^ width ∧
      spanDigits (fixedDigits width n ++ rest) =
        (digits ++ (spanDigits rest).1, (spanDigits rest).2) := by
  induction width generalizing n rest with
  | zero => exact ⟨[], rfl, by simp [ofDigits, Nat.mod_one], rfl⟩
  | succ width ih =>
    obtain ⟨digits, hlength, hvalue, hspan⟩ := ih (n / 10) (digitChar n :: rest)
    refine ⟨digits ++ [n % 10], by simp [hlength], ?_, ?_⟩
    · rw [ofDigits_concat, hvalue, Nat.pow_succ, Nat.mul_comm (10 ^ width), Nat.mod_mul]
      omega
    · rw [fixedDigits, List.append_assoc, List.singleton_append, hspan]
      simp [spanDigits, digitValue?_digitChar]

/-! ## Order -/

theorem digitChar_lt_digitChar (m n : Nat) : digitChar m < digitChar n ↔ m % 10 < n % 10 := by
  have h : ∀ d < 10, ∀ e < 10, (Char.ofNat (48 + d) < Char.ofNat (48 + e)) ↔ d < e := by decide
  exact h (m % 10) (Nat.mod_lt m (by decide)) (n % 10) (Nat.mod_lt n (by decide))

/-- Texts that begin with numbers of one width are in the order of the numbers. -/
theorem fixedDigits_append_lt_iff {width m n : Nat} (hm : m < 10 ^ width) (hn : n < 10 ^ width)
    (cs ds : List Char) :
    fixedDigits width m ++ cs < fixedDigits width n ++ ds ↔ m < n ∨ (m = n ∧ cs < ds) := by
  induction width generalizing m n cs ds with
  | zero =>
    obtain rfl : m = 0 := by simpa using hm
    obtain rfl : n = 0 := by simpa using hn
    simp [fixedDigits]
  | succ width ih =>
    have htop {k : Nat} (hk : k < 10 ^ (width + 1)) : k / 10 < 10 ^ width := by
      rw [Nat.pow_succ] at hk
      omega
    have heq : digitChar m = digitChar n ↔ m % 10 = n % 10 := by
      constructor
      · intro h
        have hvalue := digitValue?_digitChar m
        rw [h, digitValue?_digitChar] at hvalue
        exact (Option.some.inj hvalue).symm
      · exact fun h => by rw [digitChar, digitChar, h]
    rw [fixedDigits, fixedDigits, List.append_assoc, List.append_assoc, ih (htop hm) (htop hn),
      List.singleton_append, List.singleton_append, List.cons_lt_cons_iff,
      digitChar_lt_digitChar, heq]
    have hm' := Nat.div_add_mod m 10
    have hn' := Nat.div_add_mod n 10
    by_cases hrest : cs < ds
    · simp only [hrest, and_true]
      omega
    · simp only [hrest, and_false, or_false]
      omega

end RunLedger.Text
