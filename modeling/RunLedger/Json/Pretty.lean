/-
  Json/Pretty.lean --- a value laid out for reading.

  WHAT THIS FILE IS FOR.  Reports on a terminal show a value with one item or
  member to a line, two blanks deeper at each level, members in the order in
  which they are listed.  Empty lists and objects stay on one line.
-/
import RunLedger.Json.Canonical

set_option autoImplicit false

namespace RunLedger.Json

open RunLedger.Text (quote)

/-- The start of a line at a depth. -/
def lineStart (depth : Nat) : List Char :=
  '\n' :: List.replicate (2 * depth) ' '

/-- Lines between an opening and a closing bracket. -/
def bracketed (opening closing : Char) (depth : Nat) : List (List Char) → List Char
  | [] => [opening, closing]
  | lines =>
    opening :: commaJoin (lines.map (lineStart (depth + 1) ++ ·)) ++ lineStart depth ++ [closing]

mutual

/-- The laid out text of a value that starts at this depth. -/
def prettyChars (depth : Nat) : Json → List Char
  | .list items => bracketed '[' ']' depth (prettyItems (depth + 1) items)
  | .object members => bracketed '\x7b' '\x7d' depth (prettyMembers (depth + 1) members)
  | scalar => canonicalChars scalar

/-- The laid out items of a list. -/
def prettyItems (depth : Nat) : List Json → List (List Char)
  | [] => []
  | item :: rest => prettyChars depth item :: prettyItems depth rest

/-- The laid out members of an object. -/
def prettyMembers (depth : Nat) : List (String × Json) → List (List Char)
  | [] => []
  | (key, value) :: rest =>
    (quote key ++ ':' :: ' ' :: prettyChars depth value) :: prettyMembers depth rest

end

/-- The laid out text of a value. -/
def pretty (value : Json) : String :=
  String.ofList (prettyChars 0 value)

end RunLedger.Json
