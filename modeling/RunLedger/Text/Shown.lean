/-
  Text/Shown.lean --- a caller's text inside a message.

  WHAT THIS FILE IS FOR.  A refusal names the string it found.  It is shown in
  double quotes with the usual short escapes, and what has no visible shape is
  written as its code point in braces.
-/
import RunLedger.Text.Printable

set_option autoImplicit false

namespace RunLedger.Text

/-- How a character of a caller's text is shown. -/
def showChar (c : Char) : List Char :=
  match c with
  | '"' => ['\\', '"']
  | '\\' => ['\\', '\\']
  | '\n' => ['\\', 'n']
  | '\r' => ['\\', 'r']
  | '\t' => ['\\', 't']
  | '\x00' => ['\\', '0']
  | c =>
    if isPrintable c then [c]
    else ['\\', 'u', '\x7b'] ++ Nat.toDigits 16 c.toNat ++ ['\x7d']

/-- A text in double quotes, every character shown. -/
def showText (s : String) : String :=
  String.ofList ('"' :: s.toList.flatMap showChar ++ ['"'])

end RunLedger.Text
