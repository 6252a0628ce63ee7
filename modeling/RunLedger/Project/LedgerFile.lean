/-
  Project/LedgerFile.lean --- the file that a ledger is kept in.

  WHAT THIS FILE IS FOR.  A file is opened before it is known what it holds, so
  opening leaves its traces: a file that was not there is there afterwards,
  without content, even if nothing comes of it.  While a ledger is open, three
  files with longer names stand beside it.  They are gone when it is closed, and
  those that somebody left there are cleared away when it is opened next.  A
  folder that stands in the way of one of them is left alone.  Depending on which
  file it keeps out, the ledger cannot be opened, or can only be read.
-/
import RunLedger.Project.Files
import RunLedger.Store.Change

set_option autoImplicit false

namespace RunLedger.Project

/-- What a file that may be that of a ledger holds. -/
inductive LedgerContent where
  /-- next to nothing -/
  | blank
  /-- something else than a ledger -/
  | foreign
  /-- a table, or the room for one that has not been made yet -/
  | table (table : Option Table)
  deriving DecidableEq, Repr, Inhabited

namespace FileEntry

/-- How many bytes a text has that still counts as none. -/
def blankSizeMax : Nat := 1

/-- What an entry holds for somebody who looks for a ledger; a folder is no file. -/
def ledgerContent? : FileEntry → Option LedgerContent
  | .folder => none
  | .text content => some (if content.utf8ByteSize ≤ blankSizeMax then .blank else .foreign)
  | .ledger table => some (.table table)

/-- A file without a single byte. -/
def isEmptyFile : FileEntry → Bool
  | .text content => content.isEmpty
  | _ => false

/-- A file whose first byte is zero. -/
def beginsWithZero : FileEntry → Bool
  | .text content => content.toList.head? == some '\x00'
  | _ => false

/-- A file that has something where a log says which turn of the log it is: in the eight bytes
behind the first sixteen, provided that the file is as long as the head of a log. -/
def hasTurn : FileEntry → Bool
  | .folder => false
  | .text content =>
    decide (32 ≤ content.utf8ByteSize) &&
      ((content.toUTF8.toList.drop 16).take 8).any (· != 0)
  | .ledger _ => true

end FileEntry

namespace Files

/-! ## Reaching the file -/

/-- The place that a path names when nothing is looked up on the way. -/
def placeOf (path : String) : List String :=
  (pathParts path).foldl
    (fun place part =>
      if isIdle part then place else if part = ".." then place.dropLast else place ++ [part]) []

/-- How many bytes the path of a place has. -/
def placeSize : (place : List String) → Nat
  | [] => 0
  | name :: place => name.utf8ByteSize + 1 + placeSize place

/-- How many bytes the path of the file of a ledger may have. -/
def ledgerPathSizeMax : Nat := 504

/-- How many bytes a path may have on the way to the file of a ledger, before parts of it lead
back again. -/
def ledgerWaySizeMax : Nat := 511

/-- Whether the place of a ledger can be reached along the parts of a path. -/
def isReachable : (place parts : List String) → Bool
  | place, [] => placeSize place ≤ ledgerPathSizeMax
  | place, part :: parts =>
    if isIdle part then isReachable place parts
    else if part = ".." then isReachable place.dropLast parts
    else
      let inner := place ++ [part]
      isGivable part && placeSize inner ≤ ledgerWaySizeMax &&
        isReachable inner parts

/-- How many bytes come before the first character zero. -/
def bytesBeforeZero (path : String) : Nat :=
  (String.ofList (path.toList.takeWhile (· != '\x00'))).utf8ByteSize

/-- Makes a file without content at a place in a folder where nothing is. -/
def touch (files : Files) (place : List String) : Files :=
  match files.at? place with
  | some _ => files
  | none =>
    if files.at? place.dropLast = some .folder then files.put place (.text "") else files

/-- Opens the file that a path names, made if need be: what it holds, and the files then. -/
def reach (files : Files) (path : String) : Except OpenFault LedgerContent × Files :=
  if path.toList.contains '\x00' then (.error (.zeroInPath (bytesBeforeZero path)), files)
  else if !isReachable [] (pathParts path) then (.error (.noFile path), files)
  else
    let files := files.touch (placeOf path)
    match (files.at? (placeOf path)).bind FileEntry.ledgerContent? with
    | some content => (.ok content, files)
    | none => (.error (.noFile path), files)

/-! ## Beside the file -/

/-- A file that stands beside that of a ledger while the ledger is open. -/
inductive Companion where
  /-- what a page held before it was changed -/
  | journal
  /-- changes that are not yet in the file -/
  | log
  /-- where in the log to look -/
  | index
  deriving DecidableEq, Repr, Inhabited

/-- What the name of a file beside that of a ledger has more. -/
def Companion.ending : Companion → String
  | journal => "-journal"
  | log => "-wal"
  | index => "-shm"

/-- The place of a file beside that of a ledger. -/
def beside (place : List String) (companion : Companion) : List String :=
  match place.getLast? with
  | some name => place.dropLast ++ [name ++ companion.ending]
  | none => []

/-- Takes back what a journal says, if it says anything, and removes it.  No journal that was
written as text says anything.  One that begins with a zero is out of date already, unless the
ledger has no content that it could be about. -/
def settleJournal (files : Files) (place : List String) (content : LedgerContent) :
    Option TableFault × Files :=
  let journal := beside place .journal
  match files.at? journal with
  | none => (none, files)
  | some .folder => (if content = .blank then none else some .unreadable, files)
  | some entry =>
    if entry.isEmptyFile || (content != .blank && entry.beginsWithZero) then (none, files)
    else (none, files.remove journal)

/-- The index of the log is there but cannot be written, so neither can the ledger. -/
def isReadOnly (files : Files) (place : List String) : Bool :=
  files.at? (beside place .index) = some .folder

/-- Removes the log and its index, which are not needed when the ledger is closed.  If the ledger
can only be read, they stay. -/
def clearLog (files : Files) (place : List String) : Files :=
  if files.isReadOnly place then files
  else (files.removeFile (beside place .log)).removeFile (beside place .index)

/-- Goes through a log, in which nothing is to be found if it was written as text.  Without an
index that can be written, it is compared with what was found in it before, and that takes it for
another one if it says which turn it is. -/
def settleLog (files : Files) (place : List String) (content : LedgerContent) :
    Option TableFault × Files :=
  let log := beside place .log
  match files.at? log with
  | none => (none, files)
  | some .folder => (some (if content = .blank then .unreadable else .noJournal), files)
  | some entry =>
    if entry.isEmptyFile then (none, files)
    else if content = .blank then (none, files.remove log)
    else if files.isReadOnly place then
      (if entry.hasTurn then some .noAgreement else none, files)
    else (none, files.clearLog place)

/-- Reads the table in a file that was opened, for which a log is begun; none if it has not been
made yet. -/
def readTable (files : Files) (place : List String) (content : LedgerContent) :
    Except TableFault (Option Table) × Files :=
  match files.settleJournal place content with
  | (some fault, files) => (.error fault, files)
  | (none, files) =>
    match files.settleLog place content with
    | (some fault, files) => (.error fault, files)
    | (none, files) =>
      match content with
      | .blank => (.ok none, files)
      | .foreign => (.error .notTable, files)
      | .table table => (.ok table, (files.touch (beside place .log)).clearLog place)

/-- A journal can be made beside the file of a ledger. -/
def hasRoomForJournal (files : Files) (place : List String) : Bool :=
  let journal := beside place .journal
  journal.getLast?.all isGivable && files.at? journal != some .folder

/-- Makes the room for a table in a blank file, through a journal. -/
def makeRoom (files : Files) (place : List String) (content : LedgerContent) :
    Option TableFault × Files :=
  if content = .blank then
    if files.hasRoomForJournal place then
      (none, (files.remove (beside place .journal)).put place (.ledger none))
    else (some .noJournal, files)
  else (none, files)

/-! ## Opening, saving, changing -/

/-- Puts a ledger into a file and closes it. -/
def saveLedger (files : Files) (path : String) (table : Table) : Files :=
  let place := placeOf path
  (files.clearLog place).put place (.ledger (some table))

/-- Opens the ledger in a file.  If it has no table yet, it gets one without rows, through a
log. -/
def openLedger (files : Files) (path : String) : Except StoreError Table × Files :=
  let place := placeOf path
  match files.reach path with
  | (.error fault, files) => (.error (.openFailed path fault), files)
  | (.ok content, files) =>
    match files.readTable place content with
    | (.error fault, files) => (.error (.table fault), files)
    | (.ok (some table), files) => (.ok table, files)
    | (.ok none, files) =>
      match files.makeRoom place content with
      | (some fault, files) => (.error (.table fault), files)
      | (none, files) =>
        if files.isReadOnly place then
          (.error (.table .readOnly), files.touch (beside place .log))
        else (.ok .empty, files.saveLedger path .empty)

/-- Whether the ledger in a file can only be read. -/
def isReadOnlyLedger (files : Files) (path : String) : Bool := files.isReadOnly (placeOf path)

/-- Changes the table in a file behind the back of its ledger: how many rows are changed, and the
files then.  What a change says is understood before it turns out that nothing can be written. -/
def changeLedger (files : Files) (path : String)
    (change : Table → Except ChangeRefusal (Nat × Table)) : Except ChangeRefusal Nat × Files :=
  match files.reach path with
  | (.error fault, files) => (.error (.unopened fault), files)
  | (.ok content, files) =>
    match files.readTable (placeOf path) content with
    | (.error fault, files) => (.error (.table fault), files)
    | (.ok none, files) => (.error .noTable, files)
    | (.ok (some table), files) =>
      match change table with
      | .error (.noColumn name) => (.error (.noColumn name), files)
      | answer =>
        if files.isReadOnlyLedger path then (.error (.table .readOnly), files)
        else
          match answer with
          | .error refusal => (.error refusal, files)
          | .ok (rows, table) => (.ok rows, files.saveLedger path table)

end Files

end RunLedger.Project
