/-
  Store/Change.lean --- changing a table behind the back of its store.

  WHAT THIS FILE IS FOR.  The file of a durable store can be changed by others.
  The table itself only sees to it that cells hold what their columns can hold,
  that no cell but the link is empty, that no two rows have the same place, and
  that no two rows of a run have the same identifier.  Everything else is for
  whoever checks the chains to find.
-/
import RunLedger.Store.Table
import RunLedger.Text.Numeric

set_option autoImplicit false

namespace RunLedger

open RunLedger.Text (readNumeral?)

/-- A column of the table. -/
inductive Column where
  | sequence
  | runId
  | eventId
  | timestamp
  | payload
  | integrityWarning
  | prevHash
  | hash
  deriving DecidableEq, Repr, Inhabited

namespace Column

/-- The columns in the order of their declaration. -/
def all : List Column :=
  [sequence, runId, eventId, timestamp, payload, integrityWarning, prevHash, hash]

/-- The written name of a column. -/
def name : Column → String
  | sequence => "sequence"
  | runId => "run_id"
  | eventId => "event_id"
  | timestamp => "timestamp"
  | payload => "payload_json"
  | integrityWarning => "integrity_warning"
  | prevHash => "prev_hash"
  | hash => "hash"

/-- The names that the column of places has besides its own. -/
def placeNames : List String := ["rowid", "oid", "_rowid_"]

/-- The column with a name; the case of its letters does not count. -/
def ofName? (name : String) : Option Column :=
  let name := String.ofList (name.toList.map Char.toLower)
  if name ∈ placeNames then some sequence else all.find? fun column => column.name == name

end Column

/-- Something to put into a cell. -/
inductive CellValue where
  | null
  | text (value : String)
  | whole (value : Int)
  deriving DecidableEq, Repr, Inhabited

/-- Why a table refuses a change. -/
inductive ChangeRefusal where
  /-- the file cannot be opened -/
  | unopened (fault : OpenFault)
  /-- the table in the file cannot be used -/
  | table (fault : TableFault)
  /-- there is no table yet -/
  | noTable
  | noColumn (name : String)
  /-- a cell that must not be empty would be -/
  | empty (column : Column)
  /-- the place would not be a whole number -/
  | mismatch
  /-- another row has the place -/
  | placeTaken
  /-- another row of the run has the identifier -/
  | identifierTaken
  deriving DecidableEq, Repr, Inhabited

/-- The sentence about a refusal. -/
def ChangeRefusal.message : ChangeRefusal → String
  | unopened fault => fault.message
  | table fault => fault.message
  | noTable => "no such table: events"
  | noColumn name => "no such column: " ++ name
  | empty column => "NOT NULL constraint failed: events." ++ column.name
  | mismatch => "datatype mismatch"
  | placeTaken => "UNIQUE constraint failed: events.sequence"
  | identifierTaken => "UNIQUE constraint failed: events.run_id, events.event_id"

namespace CellValue

/-- The value as text; none if it is null. -/
def toText? : CellValue → Option String
  | null => none
  | text value => some value
  | whole value => some (String.ofList (Json.intChars value))

/-- The value as a mark; none if it is null. -/
def toCell? : CellValue → Option Cell
  | null => none
  | whole value => some (.whole value)
  | text value =>
    match readNumeral? value with
    | none => some (.text value)
    | some number =>
      match number.toWhole? with
      | some n => some (.whole n)
      | none => some .real

/-- The value as a place; none if it is no whole number. -/
def toPlace? (value : CellValue) : Option Int :=
  match value.toCell? with
  | some (.whole n) => some n
  | _ => none

end CellValue

/-- A row with one cell changed. -/
def Row.change (row : Row) (column : Column) (value : CellValue) : Except ChangeRefusal Row :=
  let asText (put : String → Row) : Except ChangeRefusal Row :=
    match value.toText? with
    | some s => .ok (put s)
    | none => .error (.empty column)
  match column with
  | .sequence =>
    match value.toPlace? with
    | some n => .ok { row with sequence := n }
    | none => .error .mismatch
  | .runId => asText fun s => { row with runId := s }
  | .eventId => asText fun s => { row with eventId := s }
  | .timestamp => asText fun s => { row with timestamp := s }
  | .payload => asText fun s => { row with payload := s }
  | .integrityWarning =>
    match value.toCell? with
    | some cell => .ok { row with integrityWarning := cell }
    | none => .error (.empty column)
  | .prevHash => .ok { row with prevHash := value.toText? }
  | .hash => asText fun s => { row with hash := s }

namespace Table

/-- The rows other than those with a place. -/
def without (table : Table) (sequence : Int) : List Row :=
  table.rows.filter fun row => row.sequence != sequence

/-- Refuses a row that cannot stand beside others. -/
def refuseClash (others : List Row) (row : Row) : Except ChangeRefusal Unit :=
  if others.any fun other => other.sequence == row.sequence then .error .placeTaken
  else if others.any fun other => other.runId == row.runId && other.eventId == row.eventId then
    .error .identifierTaken
  else .ok ()

/-- The table with one cell of the row with a place changed, and how many rows that are. -/
def change (table : Table) (sequence : Int) (column : Column) (value : CellValue) :
    Except ChangeRefusal (Nat × Table) := do
  match table.rows.find? fun row => row.sequence == sequence with
  | none => return (0, table)
  | some old =>
    let row ← old.change column value
    refuseClash (table.without sequence) row
    let rows := table.rows.map fun other => if other.sequence = sequence then row else other
    return (1, { table with rows := rows })

/-- The table without the row with a place, and how many rows that were. -/
def remove (table : Table) (sequence : Int) : Nat × Table :=
  let kept := table.without sequence
  (table.rows.length - kept.length, { table with rows := kept })

end Table

end RunLedger
