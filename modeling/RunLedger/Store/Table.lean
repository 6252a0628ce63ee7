/-
  Store/Table.lean --- the table that a durable store keeps.

  WHAT THIS FILE IS FOR.  A durable store keeps one row for each record.  The
  payload is kept as canonical text; the run, the identifier and the time are
  kept once more in columns of their own, and it is by these columns that rows
  are selected, ordered and told apart.  Nothing ties the columns to the payload
  except the store that writes them: a table may have been changed by others, so
  every row is decoded and may turn out not to be a record.

  The places are given out by the table.  A place is never given twice, not even
  after the row that had it is gone.
-/
import RunLedger.Store.Basic

set_option autoImplicit false

namespace RunLedger

open RunLedger.Time (Instant)

/-! ## Rows -/

/-- The cell that holds the mark of a record.  Any whole number other than zero is a mark;
other numbers and text are not readable as one. -/
inductive Cell where
  | whole (value : Int)
  | real
  | text (value : String)
  deriving DecidableEq, Repr, Inhabited

/-- The mark in a cell. -/
def Cell.toBool? : Cell → Except TableFault Bool
  | whole n => .ok (n != 0)
  | real => .error (.wrongCellType "Real" 2 "integrity_warning")
  | text _ => .error (.wrongCellType "Text" 2 "integrity_warning")

/-- A row of the table. -/
structure Row where
  sequence : Int
  runId : String
  eventId : String
  timestamp : String
  payload : String
  integrityWarning : Cell
  prevHash : Option String
  hash : String
  deriving DecidableEq, Repr, Inhabited

namespace Row

/-- The row of a record. -/
def ofRecord (r : Record) : Row where
  sequence := r.sequence
  runId := r.runId
  eventId := r.eventId
  timestamp := r.timestamp.format
  payload := r.event.payload.canonical
  integrityWarning := .whole (if r.integrityWarning then 1 else 0)
  prevHash := r.prevHash
  hash := r.hash

/-- The record of a row whose mark has been read. -/
def toRecord? (row : Row) (integrityWarning : Bool) : Except StoreError Record :=
  if row.sequence < 0 then .error (.corruptRecord 0 (.negativeSequence row.sequence))
  else
    match Event.ofText? row.payload with
    | .ok event => .ok ⟨row.sequence.toNat, event, integrityWarning, row.prevHash, row.hash⟩
    | .error fault => .error (.corruptRecord row.sequence.toNat (.badPayload fault))

/-- The first row is selected no later than the second: rows are ordered by the text in their
time column, and those with the same text by their places. -/
def readsBefore (a b : Row) : Bool :=
  decide (a.timestamp < b.timestamp) ||
    (decide (a.timestamp = b.timestamp) && decide (a.sequence ≤ b.sequence))

/-- The first row has no later place than the second. -/
def placedBefore (a b : Row) : Bool := decide (a.sequence ≤ b.sequence)

end Row

/-- The rows with their marks read, or the fault of the first that has none. -/
def readMarks : List Row → Except StoreError (List (Row × Bool))
  | [] => .ok []
  | row :: rest =>
    match row.integrityWarning.toBool? with
    | .error fault => .error (.table fault)
    | .ok mark => (readMarks rest).map ((row, mark) :: ·)

/-- The records of rows whose marks are read, or the fault of the first that is not a record. -/
def decodeRows : List (Row × Bool) → Except StoreError (List Record)
  | [] => .ok []
  | (row, mark) :: rest =>
    match row.toRecord? mark with
    | .error fault => .error fault
    | .ok r => (decodeRows rest).map (r :: ·)

/-- The records of some rows, in their order.  All cells are read before any payload is. -/
def recordsOf (rows : List Row) : Except StoreError (List Record) :=
  match readMarks rows with
  | .error fault => .error fault
  | .ok marked => decodeRows marked

/-! ## Tables -/

/-- The last place there is. -/
def lastPlace : Int := 9223372036854775807

/-- A table: its rows, and the highest place that it has given out. -/
structure Table where
  rows : List Row
  placed : Int
  deriving DecidableEq, Repr, Inhabited

namespace Table

/-- A table without rows. -/
def empty : Table := ⟨[], 0⟩

/-- The rows of a run. -/
def rowsOf (table : Table) (runId : String) : List Row :=
  table.rows.filter fun row => row.runId == runId

/-- The highest place that is in use or has been given out. -/
def top (table : Table) : Int :=
  table.rows.foldl (fun top row => max top row.sequence) table.placed

/-- The place that the next row gets, unless the last one is taken. -/
def nextPlace? (table : Table) : Option Int :=
  if lastPlace ≤ table.top then none else some (table.top + 1)

/-- Whether a row with this run and this identifier is there. -/
def holds (table : Table) (runId eventId : String) : Bool :=
  table.rows.any fun row => row.runId == runId && row.eventId == eventId

/-- The records of all runs in read order. -/
def readAll (table : Table) : Except StoreError (List Record) :=
  recordsOf (table.rows.mergeSort Row.readsBefore)

/-- The records of a run in read order. -/
def readRun (table : Table) (runId : String) : Except StoreError (List Record) :=
  recordsOf ((table.rowsOf runId).mergeSort Row.readsBefore)

/-- The records of a run in the order of their places. -/
def readChain (table : Table) (runId : String) : Except StoreError (List Record) :=
  recordsOf ((table.rowsOf runId).mergeSort Row.placedBefore)

/-- The latest text in the time column of some rows. -/
def latestText : List Row → Option String
  | [] => none
  | row :: rest =>
    match latestText rest with
    | some t => some (if row.timestamp < t then t else row.timestamp)
    | none => some row.timestamp

/-- The digest of the row with the highest place. -/
def lastHash (rows : List Row) : Option String :=
  ((rows.mergeSort Row.placedBefore).getLast?).map Row.hash

/-- The head of a run, read from the columns of its rows. -/
def head (table : Table) (runId : String) : Except StoreError RunTip :=
  let rows := table.rowsOf runId
  match latestText rows with
  | none => .ok ⟨none, lastHash rows⟩
  | some raw =>
    match Instant.parse? raw with
    | some t => .ok ⟨some t, lastHash rows⟩
    | none => .error (.corruptRecord 0 (.badTimestamp raw))

end Table

end RunLedger
