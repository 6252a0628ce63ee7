/-
  Decode/Basic.lean --- decoding values and names.

  WHAT THIS FILE IS FOR.  A decoder takes a draft to a value or to the fault
  that is met first.  Documents come from two places: as values that are already
  at hand, and as text that is decoded while it is read.  Where the two differ is
  in what is said about a value that stands where a name is due, and about a list
  that is too long; everything else is the same for both.
-/
import RunLedger.Decode.Fault
import RunLedger.Time.Timestamp

set_option autoImplicit false

namespace RunLedger.Decode

open RunLedger.Json (Draft Closing SyntaxFault)
open RunLedger.Decimal (Binary64)
open RunLedger.Time (Instant)

/-- Where a document comes from. -/
inductive Origin where
  /-- it is a value already -/
  | value
  /-- it is text, decoded while it is read -/
  | text
  deriving DecidableEq, Repr, Inhabited

/-- From a draft to a value, or the first fault. -/
abbrev Decoder (α : Type) : Type := Draft → Except Fault α

/-- The fault of a draft that is not of the kind that is due. -/
def misplaced (draft : Draft) (wanted : String) : Fault :=
  match draft with
  | .broken fault _ => .badSyntax fault
  | .null => .wrongType .null wanted
  | .bool b => .wrongType (.bool b) wanted
  | .number n => .wrongType (.number n) wanted
  | .text s => .wrongType (.text s) wanted
  | .list .. => .wrongType .list wanted
  | .object .. => .wrongType .object wanted

/-- What the end of a list or an object has to say once everything before it is decoded. -/
def endOf : Closing → Except Fault Unit
  | .closed => .ok ()
  | .broken fault => .error (.badSyntax fault)

/-! ## Plain values -/

/-- A string. -/
def text : Decoder String
  | .text s => .ok s
  | draft => .error (misplaced draft "a string")

/-- A truth value. -/
def bool : Decoder Bool
  | .bool b => .ok b
  | draft => .error (misplaced draft "a boolean")

/-- A binary64 number; a whole number stands for the nearest one. -/
def real : Decoder Binary64
  | .number (.real x) => .ok x
  | .number (.whole n) =>
    match Binary64.ofInt? n with
    | some x => .ok x
    | none => .error (.outOfRange n "f64")
  | draft => .error (misplaced draft "f64")

/-- A natural number below a bound. -/
def natBelow (bound : Nat) (wanted : String) : Decoder Nat
  | .number (.whole n) =>
    if 0 ≤ n ∧ n < bound then .ok n.toNat else .error (.outOfRange n wanted)
  | draft => .error (misplaced draft wanted)

/-- A natural number of 64 bits. -/
def nat : Decoder Nat := natBelow (Decimal.twoPow 64) "u64"

/-- A byte. -/
def byte : Decoder Nat := natBelow 256 "u8"

/-- Null, or a value.  What begins like null must be null. -/
def optional {α : Type} (decode : Decoder α) : Decoder (Option α)
  | .null => .ok none
  | .broken fault .nullWord => .error (.badSyntax fault)
  | draft => (decode draft).map some

/-- The items of a list, from the first on. -/
def items {α : Type} (decode : Decoder α) : List Draft → Except Fault (List α)
  | [] => .ok []
  | draft :: rest =>
    match decode draft with
    | .error fault => .error fault
    | .ok a => (items decode rest).map (a :: ·)

/-- A list. -/
def list {α : Type} (decode : Decoder α) : Decoder (List α)
  | .list drafts closing => do
    let decoded ← items decode drafts
    endOf closing
    return decoded
  | draft => .error (misplaced draft "a sequence")

/-! ## Names -/

/-- The value of a name among the names that are due. -/
def named {α : Type} (names : List (String × α)) (name : String) : Except Fault α :=
  match names.lookup name with
  | some a => .ok a
  | none => .error (.unknownName name (names.map Prod.fst))

/-- What a name may carry: nothing. -/
def nothing : Decoder Unit
  | .null => .ok ()
  | draft => .error (misplaced draft "unit")

/-- The fault of text that has something else where a name is due: only a quote or a brace may
stand there. -/
def notName : Draft → Fault
  | .broken fault .nothing => .badSyntax fault
  | .broken fault .quote => .badSyntax fault
  | _ => .badSyntax .valueExpected

/-- The fault of an object in the place of a name that has no key. -/
def noName : Closing → Fault
  | .closed => .badSyntax .valueExpected
  | .broken fault => .badSyntax fault

/-- The end of an object that stands in the place of a name, in text. -/
def endOfName (rest : List (String × Draft)) (closing : Closing) : Except Fault Unit :=
  match rest, closing with
  | [], .closed => .ok ()
  | [], .broken .endInObject => .error (.badSyntax .endInObject)
  | _, _ => .error (.badSyntax .valueExpected)

/-- A name from a list of names: a string, or an object whose only key is the name and whose
only value is null. -/
def choice {α : Type} (origin : Origin) (names : List (String × α)) : Decoder α
  | .text s => named names s
  | .object members closing =>
    match origin, members with
    | .value, [(name, carried)] => do
      let a ← named names name
      nothing carried
      return a
    | .value, _ => .error .notSingleKey
    | .text, [] => .error (noName closing)
    | .text, (name, carried) :: rest => do
      let a ← named names name
      nothing carried
      endOfName rest closing
      return a
  | draft =>
    match origin with
    | .value => .error (misplaced draft "string or map")
    | .text => .error (notName draft)

/-! ## Timestamps -/

/-- The instant that a string writes. -/
def instantOf (raw : String) : Except Fault Instant :=
  match Instant.parse? raw with
  | some t => .ok t
  | none => .error (.badTimestamp (Instant.refusal raw))

/-- A timestamp. -/
def instant : Decoder Instant := fun draft =>
  match text draft with
  | .ok raw => instantOf raw
  | .error fault => .error fault

/-- Null, a blank string, or a timestamp; the first two stand for none. -/
def optionalInstant : Decoder (Option Instant) := fun draft =>
  match optional text draft with
  | .error fault => .error fault
  | .ok none => .ok none
  | .ok (some raw) =>
    if Text.isBlankText raw then .ok none else (instantOf raw).map some

end RunLedger.Decode
