/-
  Decode/Record.lean --- decoding records.

  WHAT THIS FILE IS FOR.  A record is written as an object with its fields as
  members, or as a list of its fields in the order of their declaration.  A FORM
  lists the fields of a record.  Opening a document with a form checks it member
  by member in the order of the document, so that the first fault is the one
  that is reported, and leaves the drafts of the fields to be picked by name.
-/
import RunLedger.Decode.Basic

set_option autoImplicit false

namespace RunLedger.Decode

open RunLedger.Json (Draft Closing)

/-- Where a field may be left out. -/
inductive Presence where
  /-- nowhere -/
  | required
  /-- in an object, but not in a list -/
  | optional
  /-- in an object, and at the end of a list -/
  | defaulted
  deriving DecidableEq, Repr, Inhabited

/-- A field of a record: its name, where it may be left out, and the check of its value. -/
structure Slot where
  name : String
  presence : Presence
  check : Decoder Unit

namespace Slot

/-- A field with the check that its decoder succeeds. -/
def of {α : Type} (name : String) (presence : Presence) (decode : Decoder α) : Slot :=
  ⟨name, presence, fun draft => (decode draft).map fun _ => ()⟩

end Slot

/-- The fields of a record, in the order of their declaration. -/
structure Form where
  /-- how refusals name the record -/
  title : String
  slots : List Slot
  /-- whether fields of other names are refused -/
  strict : Bool

/-- The fields found in a document. -/
abbrev Fields : Type := List (String × Draft)

namespace Form

/-- The names of the fields. -/
def names (form : Form) : List String := form.slots.map Slot.name

/-- The field with a name. -/
def slot? (form : Form) (name : String) : Option Slot :=
  form.slots.find? fun slot => slot.name == name

/-! ## Objects -/

/-- Checks the members of an object from the first on; `seen` are the keys before them. -/
def checkMembers (form : Form) : (seen : List String) → List (String × Draft) →
    Except Fault Unit
  | _, [] => .ok ()
  | seen, (key, draft) :: rest =>
    match form.slot? key with
    | none =>
      if form.strict then .error (.unknownField key form.names)
      else checkMembers form seen rest
    | some slot =>
      if seen.contains key then .error (.duplicateField key)
      else
        match slot.check draft with
        | .error fault => .error fault
        | .ok () => checkMembers form (key :: seen) rest

/-- The first field that an object must have and has not. -/
def missing? (form : Form) (members : List (String × Draft)) : Option Slot :=
  form.slots.find? fun slot => slot.presence == .required && (members.lookup slot.name).isNone

/-- The fields of an object. -/
def openObject (form : Form) (members : List (String × Draft)) (closing : Closing) :
    Except Fault Fields := do
  form.checkMembers [] members
  endOf closing
  match form.missing? members with
  | some slot => throw (.missingField slot.name)
  | none => return members

/-! ## Lists -/

/-- What is said about a list that goes on behind the last field. -/
def endOfList (origin : Origin) (count : Nat) (rest : List Draft) (closing : Closing) :
    Except Fault Unit :=
  match origin, rest, closing with
  | .value, [], _ => .ok ()
  | .value, _ :: _, _ => .error (.tooManyItems count)
  | .text, [], .closed => .ok ()
  | .text, [], .broken .endInList => .error (.badSyntax .endInList)
  | .text, [], .broken .commaAtEnd => .error (.badSyntax .commaAtEnd)
  | .text, _, _ => .error (.badSyntax .leftover)

/-- The fields of a list, from the field with the number `number` on. -/
def openItems (form : Form) (origin : Origin) (count : Nat) (closing : Closing) :
    (number : Nat) → List Slot → List Draft → Except Fault Fields
  | _, [], rest => do
    endOfList origin count rest closing
    return []
  | number, slot :: slots, [] =>
    match endOf closing with
    | .error fault => .error fault
    | .ok () =>
      if slot.presence = .defaulted then openItems form origin count closing (number + 1) slots []
      else .error (.tooFewItems number form.title form.slots.length)
  | number, slot :: slots, draft :: rest =>
    match slot.check draft with
    | .error fault => .error fault
    | .ok () =>
      (openItems form origin count closing (number + 1) slots rest).map ((slot.name, draft) :: ·)

/-! ## Documents -/

/-- The fields of a document. -/
def openDraft (form : Form) (origin : Origin) : Decoder Fields
  | .object members closing => form.openObject members closing
  | .list drafts closing => form.openItems origin drafts.length closing 0 form.slots drafts
  | draft => .error (misplaced draft form.title)

end Form

namespace Fields

/-- A field that is there. -/
def get {α : Type} (fields : Fields) (name : String) (decode : Decoder α) : Except Fault α :=
  match fields.lookup name with
  | some draft => decode draft
  | none => .error (.missingField name)

/-- A field, or a default if it is left out. -/
def getD {α : Type} (fields : Fields) (name : String) (decode : Decoder α) (default : α) :
    Except Fault α :=
  match fields.lookup name with
  | some draft => decode draft
  | none => .ok default

end Fields

end RunLedger.Decode
