/-
  Proofs/Json/Text.lean --- strings are read back as they were written.

  WHAT THIS FILE IS FOR.  Every character of a string is written in its own way,
  and reading undoes it character by character.  The closing quote is the first
  quote that no escape holds, so a written string also tells where it ends.
-/
import Mathlib.Algebra.Group.Nat.Defs
import RunLedger.Json.Reader
import RunLedger.Text.Quoted

set_option autoImplicit false

namespace RunLedger.Json

open RunLedger.Text (escapeChar escapeChars quote hexChars hexDigit)

/-- Control characters are written by number and read by number. -/
theorem hexQuad?_hexDigit : ∀ n < 32,
    hexQuad? (hexDigit (n / 16 ^ 3 % 16)) (hexDigit (n / 16 ^ 2 % 16))
      (hexDigit (n / 16 ^ 1 % 16)) (hexDigit (n / 16 ^ 0 % 16)) = some n := by
  decide

theorem readText_control {c : Char} (hc : c.toNat < 0x20) (rest : List Char) :
    readText ('\\' :: 'u' :: hexChars c.toNat 4 ++ rest) = pushChar c (readText rest) := by
  have hquad := hexQuad?_hexDigit c.toNat hc
  have hlow : isLowSurrogate c.toNat = false := by
    simp only [isLowSurrogate, Bool.and_eq_false_iff, decide_eq_false_iff_not]
    omega
  have hhigh : isHighSurrogate c.toNat = false := by
    simp only [isHighSurrogate, Bool.and_eq_false_iff, decide_eq_false_iff_not]
    omega
  have htext : '\\' :: 'u' :: hexChars c.toNat 4 ++ rest =
      '\\' :: 'u' :: hexDigit (c.toNat / 16 ^ 3 % 16) :: hexDigit (c.toNat / 16 ^ 2 % 16) ::
        hexDigit (c.toNat / 16 ^ 1 % 16) :: hexDigit (c.toNat / 16 ^ 0 % 16) :: rest := rfl
  rw [htext, readText, hquad]
  simp [hlow, hhigh]

theorem readText_plain {c : Char} (hquote : c ≠ '"') (hslash : c ≠ '\\') (hc : ¬ c.toNat < 0x20)
    (rest : List Char) : readText (c :: rest) = pushChar c (readText rest) := by
  rw [readText, if_neg hc] <;> simp [hquote, hslash]

/-- Reading undoes the writing of a character. -/
theorem readText_escapeChar (c : Char) (rest : List Char) :
    readText (escapeChar c ++ rest) = pushChar c (readText rest) := by
  unfold escapeChar
  split
  · rfl
  · rfl
  · rfl
  · rfl
  · rfl
  · rfl
  · rfl
  · rename_i hquote hslash _ _ _ _ _
    split
    · rename_i hcontrol
      exact readText_control hcontrol rest
    · rename_i hcontrol
      exact readText_plain hquote hslash hcontrol rest

/-- A written string is read back, up to its closing quote. -/
theorem readText_escapeChars (cs rest : List Char) :
    readText (escapeChars cs ++ '"' :: rest) = .ok (cs, rest) := by
  induction cs with
  | nil => rfl
  | cons c cs ih =>
    have htext : escapeChars (c :: cs) ++ '"' :: rest =
        escapeChar c ++ (escapeChars cs ++ '"' :: rest) := by
      simp [escapeChars]
    rw [htext, readText_escapeChar, ih]
    rfl

/-- A written string tells what it is and where it ends. -/
theorem quote_append_inj {s t : String} {rest rest' : List Char}
    (h : quote s ++ rest = quote t ++ rest') : s = t ∧ rest = rest' := by
  have htext (s : String) (rest : List Char) :
      quote s ++ rest = '"' :: (escapeChars s.toList ++ '"' :: rest) := by
    simp [quote, Text.quoteChars]
  rw [htext, htext] at h
  have hread := congrArg readText (List.cons.inj h).2
  rw [readText_escapeChars, readText_escapeChars] at hread
  obtain ⟨hs, hrest⟩ := Prod.mk.inj (Except.ok.inj hread)
  exact ⟨String.toList_inj.mp hs, hrest⟩

end RunLedger.Json
