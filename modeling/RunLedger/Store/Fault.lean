/-
  Store/Fault.lean --- why the ledger refuses or fails.

  WHAT THIS FILE IS FOR.  A submission may be refused for what it is, a store
  may fail, and recorded history may turn out to be altered.  The causes are
  listed here with the kind of failure that each of them is, a code that
  programs can rely on, and a sentence.
-/
import RunLedger.Event.Problem

set_option autoImplicit false

namespace RunLedger

/-- Who has to do something about a failure. -/
inductive FailureKind where
  /-- the caller: the request is refused and would be refused again -/
  | caller
  /-- whoever runs the store: the request may be repeated -/
  | storage
  /-- whoever guards the records: they contradict each other -/
  | consistency
  deriving DecidableEq, Repr, Inhabited

/-- The written name of a kind of failure. -/
def FailureKind.name : FailureKind → String
  | caller => "caller"
  | storage => "storage"
  | consistency => "consistency"

/-- What is wrong with a chain at a record. -/
inductive ChainBreak where
  /-- the record does not come after the one before it -/
  | outOfOrder
  /-- the record is linked to `found` where `expected` is due -/
  | wrongLink (found expected : Option String)
  /-- the record carries the digest `stored` where `expected` is due -/
  | wrongHash (stored expected : String)
  deriving DecidableEq, Repr, Inhabited

/-- The sentence about a break. -/
def ChainBreak.message : ChainBreak → String
  | outOfOrder => "events are not in append order"
  | wrongLink found expected =>
    "prev_hash " ++ found.getD "none" ++ " does not match previous event hash " ++
      expected.getD "none"
  | wrongHash stored expected =>
    "stored hash " ++ stored ++ " does not recompute (expected " ++ expected ++ ")"

/-- Why a stored row is not a record. -/
inductive Corruption where
  /-- its place in the ledger is below zero -/
  | negativeSequence (sequence : Int)
  /-- its payload is not that of an event -/
  | badPayload (fault : Decode.Fault)
  /-- the time kept beside its payload is not a timestamp -/
  | badTimestamp (raw : String)
  /-- the store does not answer -/
  | unreachable
  deriving DecidableEq, Repr, Inhabited

/-- The sentence about a corrupt row. -/
def Corruption.message : Corruption → String
  | negativeSequence sequence =>
    "negative sequence " ++ String.ofList (Json.intChars sequence)
  | badPayload fault => fault.message
  | badTimestamp raw => Time.Instant.refusal raw
  | unreachable => "store offline"

/-- Why a table of rows cannot be used. -/
inductive TableFault where
  /-- a cell holds a value of another type than its column -/
  | wrongCellType (type : String) (index : Nat) (column : String)
  /-- no place is left after the last one -/
  | full
  /-- the file holds something else than a table -/
  | notTable
  /-- a file that changes are first written to cannot be opened or made -/
  | noJournal
  /-- a file beside it cannot be read or removed -/
  | unreadable
  /-- the file by which its users agree on what is written cannot be written -/
  | readOnly
  /-- its users cannot agree on what is written -/
  | noAgreement
  deriving DecidableEq, Repr, Inhabited

/-- The sentence about an unusable table. -/
def TableFault.message : TableFault → String
  | wrongCellType type index column =>
    "Invalid column type " ++ type ++ " at index: " ++ toString index ++ ", name: " ++ column
  | full => "database or disk is full"
  | notTable => "file is not a database"
  | noJournal => "unable to open database file"
  | unreadable => "disk I/O error"
  | readOnly => "attempt to write a readonly database"
  | noAgreement => "locking protocol"

/-- Why the file of a table cannot be opened. -/
inductive OpenFault where
  /-- it is no file, or cannot be made -/
  | noFile (path : String)
  /-- its path has a character zero, after so many bytes -/
  | zeroInPath (position : Nat)
  deriving DecidableEq, Repr, Inhabited

/-- The sentence about a file that cannot be opened. -/
def OpenFault.message : OpenFault → String
  | noFile path => "unable to open database file: " ++ path
  | zeroInPath position => "nul byte found in provided data at position: " ++ toString position

/-- Why the ledger refuses or fails. -/
inductive StoreError where
  /-- the submitted document has problems -/
  | schemaValidation (problems : List Problem)
  /-- the run already holds an event with this identifier -/
  | duplicateEvent (eventId runId : String)
  /-- the records of a run do not form a chain -/
  | chainBroken (runId eventId : String) (sequence : Nat) (found : ChainBreak)
  /-- the file of the ledger cannot be opened -/
  | openFailed (path : String) (fault : OpenFault)
  /-- the table of the ledger cannot be used -/
  | table (fault : TableFault)
  /-- a row is not a record -/
  | corruptRecord (sequence : Nat) (cause : Corruption)
  deriving DecidableEq, Repr, Inhabited

namespace StoreError

/-- The code of an error. -/
def code : StoreError → String
  | schemaValidation _ => "SCHEMA_VALIDATION_ERROR"
  | duplicateEvent .. => "DUPLICATE_EVENT_ID"
  | chainBroken .. => "HASH_CHAIN_BROKEN"
  | openFailed .. => "STORAGE_ERROR"
  | table _ => "STORAGE_ERROR"
  | corruptRecord .. => "STORAGE_ERROR"

/-- The kind of failure that an error is. -/
def kind : StoreError → FailureKind
  | schemaValidation _ => .caller
  | duplicateEvent .. => .caller
  | chainBroken .. => .consistency
  | openFailed .. => .storage
  | table _ => .storage
  | corruptRecord .. => .storage

/-- The sentence about an error. -/
def message : StoreError → String
  | schemaValidation problems =>
    "event payload failed schema validation (" ++ toString problems.length ++ " problem(s))"
  | duplicateEvent eventId runId =>
    "event ID '" ++ eventId ++ "' already exists for run '" ++ runId ++ "'"
  | chainBroken runId eventId sequence found =>
    "hash chain broken for run '" ++ runId ++ "' at sequence " ++ toString sequence ++
      " (event '" ++ eventId ++ "'): " ++ found.message
  | openFailed path fault =>
    "failed to open ledger database at " ++ path ++ ": " ++ fault.message
  | table fault => "sqlite error: " ++ fault.message
  | corruptRecord sequence cause =>
    "stored record " ++ toString sequence ++ " is corrupt: " ++ cause.message

end StoreError

end RunLedger
