/-
  Text/Quoted.lean --- strings as JSON writes them.

  WHAT THIS FILE IS FOR.  Payloads are hashed as text, so a string has exactly
  one written form: five characters have a short escape besides the quote and
  the backslash, the other control characters are written by number, and every
  other character stands for itself.
-/
import RunLedger.Text.Hexadecimal

set_option autoImplicit false

namespace RunLedger.Text

/-- How a character is written between the quotes. -/
def escapeChar (c : Char) : List Char :=
  match c with
  | '"' => ['\\', '"']
  | '\\' => ['\\', '\\']
  | '\x08' => ['\\', 'b']
  | '\x0c' => ['\\', 'f']
  | '\n' => ['\\', 'n']
  | '\r' => ['\\', 'r']
  | '\t' => ['\\', 't']
  | c =>
    if c.toNat < 0x20 then
      '\\' :: 'u' :: hexChars c.toNat 4
    else [c]

/-- The characters of a text between its quotes. -/
def escapeChars (cs : List Char) : List Char :=
  cs.flatMap escapeChar

/-- A text in quotes. -/
def quoteChars (cs : List Char) : List Char :=
  '"' :: escapeChars cs ++ ['"']

/-- The JSON text of a string. -/
def quote (s : String) : List Char :=
  quoteChars s.toList

end RunLedger.Text
