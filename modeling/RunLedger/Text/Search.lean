/-
  Text/Search.lean --- looking for a phrase in a text.

  WHAT THIS FILE IS FOR.  A refusal is sorted by phrases of its own message.
  The two questions asked of a message are whether a phrase occurs in it and
  what stands between the first and the second occurrence of a phrase.
-/

set_option autoImplicit false

namespace RunLedger.Text

/-- The rest of `cs` after `phrase`, when `cs` begins with it. -/
def dropPhrase? : (phrase cs : List Char) → Option (List Char)
  | [], cs => some cs
  | _ :: _, [] => none
  | p :: ps, c :: cs => if p = c then dropPhrase? ps cs else none

/-- `cs` cut at the first occurrence of `phrase`: what stands before it and what after. -/
def cutAt? (phrase : List Char) : List Char → Option (List Char × List Char)
  | [] => if phrase.isEmpty then some ([], []) else none
  | c :: cs =>
    match dropPhrase? phrase (c :: cs) with
    | some rest => some ([], rest)
    | none => (cutAt? phrase cs).map fun (before, after) => (c :: before, after)

/-- Whether `phrase` occurs in `cs`. -/
def hasPhrase (phrase cs : List Char) : Bool :=
  (cutAt? phrase cs).isSome

/-- What follows the first occurrence of `phrase`, up to the second one or to the end. -/
def afterPhrase? (phrase cs : List Char) : Option (List Char) :=
  (cutAt? phrase cs).map fun (_, rest) =>
    match cutAt? phrase rest with
    | some (between, _) => between
    | none => rest

/-- The name in backticks right after the first occurrence of `phrase`. -/
def namedAfter? (phrase cs : List Char) : Option (List Char) :=
  match afterPhrase? phrase cs with
  | some ('\x60' :: rest) => (cutAt? ['\x60'] rest).map Prod.fst
  | _ => none

end RunLedger.Text
