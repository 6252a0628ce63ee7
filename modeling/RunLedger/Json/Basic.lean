/-
  Json/Basic.lean --- JSON values.

  WHAT THIS FILE IS FOR.  Events come in, are stored and are answered as JSON.
  A number is a whole number in the range of 64 bits, signed or not, or a finite
  binary64 number; the two are different values even when they are equal as
  quantities.  An object is the list of its members; whether their order means
  anything is for the user of the value to say.
-/
import RunLedger.Decimal.Binary64

set_option autoImplicit false

namespace RunLedger

open RunLedger.Decimal (Binary64)

/-- A JSON number. -/
inductive Json.Number where
  /-- a whole number -/
  | whole (value : Int)
  /-- a binary64 number -/
  | real (value : Binary64)
  deriving DecidableEq, Repr, Inhabited

/-- A JSON value. -/
inductive Json where
  | null
  | bool (value : Bool)
  | number (value : Json.Number)
  | text (value : String)
  | list (items : List Json)
  | object (members : List (String × Json))
  deriving Repr, Inhabited

namespace Json

/-- A whole number as a value. -/
def nat (n : Nat) : Json := .number (.whole n)

/-- An optional text, absent ones as null. -/
def optionalText : Option String → Json
  | some s => .text s
  | none => .null

/-- The value of the first member with this key. -/
def member? (key : String) : Json → Option Json
  | .object members => members.lookup key
  | _ => none

/-! ## Objects in key order -/

/-- Whether a member comes before another one, or has the same key. -/
def keyLe {α : Type} (a b : String × α) : Bool := decide (a.1 ≤ b.1)

/-- Puts a member in its place in a list that rises in the keys; an old member with the same
key gives way. -/
def insertMember (key : String) (value : Json) : List (String × Json) → List (String × Json)
  | [] => [(key, value)]
  | (k, v) :: rest =>
    if key < k then (key, value) :: (k, v) :: rest
    else if key = k then (key, value) :: rest
    else (k, v) :: insertMember key value rest

/-- Members in rising key order, of equal keys the last one only. -/
def sortMembers (members : List (String × Json)) : List (String × Json) :=
  members.foldl (fun sorted (key, value) => insertMember key value sorted) []

end Json

end RunLedger
