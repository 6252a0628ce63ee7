/-
  Store/Shared.lean --- a table that several handles are open on.

  WHAT THIS FILE IS FOR.  The table is there for all handles, and what one of them
  puts there the others find.  What a handle remembers is its own: it learns the head
  of a run when it first appends to it, and does not look at the table again for that
  run.  Appends through different handles do not overlap, so one that is made through
  a handle is one of the durable store that the table and this handle are.
-/
import RunLedger.Store.Durable

set_option autoImplicit false

namespace RunLedger

/-- A table, and the handles that are open on it. -/
structure SharedTable (ι : Type) where
  table : Table
  handles : ι → Handle

namespace SharedTable

variable {ι : Type}

/-- A table with handles that have not been used.  A handle that is opened later is one that is not
used before. -/
def opened (table : Table) : SharedTable ι := ⟨table, fun _ => .fresh⟩

/-- The durable store that is used through a handle. -/
def through (shared : SharedTable ι) (i : ι) : DurableStore := ⟨shared.table, shared.handles i⟩

variable [DecidableEq ι]

/-- The table and the handles behind a call through a handle that leaves `store`. -/
def leave (shared : SharedTable ι) (i : ι) (store : DurableStore) : SharedTable ι :=
  ⟨store.table, fun j => if j = i then store.handle else shared.handles j⟩

/-- Records an event through a handle. -/
def append (shared : SharedTable ι) (i : ι) (event : Event) :
    Except StoreError Record × SharedTable ι :=
  let (answer, store) := (shared.through i).append event
  (answer, shared.leave i store)

/-- Records events one after the other, each through a handle: the answers, and what becomes of the
table and the handles. -/
def appendEach (shared : SharedTable ι) :
    List (ι × Event) → List (Except StoreError Record) × SharedTable ι
  | [] => ([], shared)
  | (i, event) :: rest =>
    let (answer, next) := shared.append i event
    let (answers, last) := next.appendEach rest
    (answer :: answers, last)

end SharedTable

end RunLedger
