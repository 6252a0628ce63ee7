/-
  Json/Canonical.lean --- the canonical text of a value.

  WHAT THIS FILE IS FOR.  Hashes are taken of text, so a value needs one text
  that does not depend on the order in which the members of its objects happen
  to be listed.  Canonical text has the members of every object in rising key
  order, at every depth, and no blanks between tokens.
-/
import RunLedger.Json.Number
import RunLedger.Text.Quoted

set_option autoImplicit false

namespace RunLedger.Json

open RunLedger.Text (quote)

/-- Texts with commas between them. -/
def commaJoin : List (List Char) → List Char
  | [] => []
  | [single] => single
  | first :: rest => first ++ ',' :: commaJoin rest

/-- The text of a member whose value is already written. -/
def memberChars (m : String × List Char) : List Char :=
  quote m.1 ++ ':' :: m.2

mutual

/-- The canonical text of a value. -/
def canonicalChars : Json → List Char
  | .null => ['n', 'u', 'l', 'l']
  | .bool true => ['t', 'r', 'u', 'e']
  | .bool false => ['f', 'a', 'l', 's', 'e']
  | .number n => n.chars
  | .text s => quote s
  | .list items => '[' :: commaJoin (canonicalItems items) ++ [']']
  | .object members =>
    '\x7b' :: commaJoin (((canonicalMembers members).mergeSort keyLe).map memberChars) ++ ['\x7d']

/-- The canonical texts of the items of a list. -/
def canonicalItems : List Json → List (List Char)
  | [] => []
  | item :: rest => canonicalChars item :: canonicalItems rest

/-- The members of an object with their values written. -/
def canonicalMembers : List (String × Json) → List (String × List Char)
  | [] => []
  | (key, value) :: rest => (key, canonicalChars value) :: canonicalMembers rest

end

/-- The canonical text of a value. -/
def canonical (value : Json) : String :=
  String.ofList (canonicalChars value)

end RunLedger.Json
