/-
  Text/Blank.lean --- blank characters, and text without them at its ends.

  WHAT THIS FILE IS FOR.  Identifiers, titles, timestamps and command words are
  compared without the blanks around them.  "Blank" is the Unicode property
  White_Space, which is wider than ASCII whitespace and narrower than "prints
  nothing": a zero-width space is not blank.
-/

set_option autoImplicit false

namespace RunLedger.Text

/-- The twenty-five code points with the Unicode property White_Space. -/
def isBlank (c : Char) : Bool :=
  (0x09 ≤ c.toNat && c.toNat ≤ 0x0D) || c.toNat == 0x20 || c.toNat == 0x85 || c.toNat == 0xA0 ||
  c.toNat == 0x1680 || (0x2000 ≤ c.toNat && c.toNat ≤ 0x200A) || c.toNat == 0x2028 ||
  c.toNat == 0x2029 || c.toNat == 0x202F || c.toNat == 0x205F || c.toNat == 0x3000

/-- A text with the blanks before its first and after its last other character removed. -/
def trimChars (cs : List Char) : List Char :=
  ((cs.dropWhile isBlank).reverse.dropWhile isBlank).reverse

/-- `trimChars` on strings. -/
def trim (s : String) : String :=
  String.ofList (trimChars s.toList)

/-- A string is blank when every character of it is. -/
def isBlankText (s : String) : Bool :=
  s.toList.all isBlank

/-- An absent text counts as blank. -/
def isBlankOption (s : Option String) : Bool :=
  s.all isBlankText

end RunLedger.Text
