/-
  Project/Files.lean --- the files that commands work on.

  WHAT THIS FILE IS FOR.  A command reads texts, makes folders and keeps the
  ledger in a file of its own.  The files are a value, so that what a command
  does to them can be said and not only observed.  What is special about the
  file of a ledger is in Project/LedgerFile.lean.
-/
import RunLedger.Project.Path
import RunLedger.Store.Table

set_option autoImplicit false

namespace RunLedger.Project

/-- What is at a place. -/
inductive FileEntry where
  | folder
  | text (content : String)
  /-- the file of a ledger, whose table may not have been made yet -/
  | ledger (table : Option Table)
  deriving DecidableEq, Repr, Inhabited

/-- Files by their places; a place is the list of names on the way from the root folder. -/
structure Files where
  entries : List (List String × FileEntry)
  deriving DecidableEq, Repr, Inhabited

namespace Files

/-- No file, only the root folder. -/
def empty : Files := ⟨[]⟩

/-- What is at a place. -/
def at? (files : Files) (place : List String) : Option FileEntry :=
  if place.isEmpty then some .folder else files.entries.lookup place

/-- Entries with one more; an earlier one at the same place gives way. -/
def putEntry (place : List String) (entry : FileEntry) :
    List (List String × FileEntry) → List (List String × FileEntry)
  | [] => [(place, entry)]
  | (p, old) :: rest =>
    if p = place then (p, entry) :: rest else (p, old) :: putEntry place entry rest

/-- Files with something put at a place. -/
def put (files : Files) (place : List String) (entry : FileEntry) : Files :=
  ⟨putEntry place entry files.entries⟩

/-- Files without what is at a place. -/
def remove (files : Files) (place : List String) : Files :=
  ⟨files.entries.filter fun entry => entry.1 != place⟩

/-- Files without what is at a place, unless that is a folder. -/
def removeFile (files : Files) (place : List String) : Files :=
  if files.at? place = some .folder then files else files.remove place

/-! ## Following paths -/

/-- The place that the parts of a path lead to from a place.  Every part leads on from a folder
that is there. -/
def follow? (files : Files) : (place : List String) → (parts : List String) →
    Option (List String)
  | place, [] => some place
  | place, part :: parts =>
    if files.at? place = some .folder then
      if isIdle part then files.follow? place parts
      else if part = ".." then files.follow? place.dropLast parts
      else files.follow? (place ++ [part]) parts
    else none

/-- What a path leads to. -/
def find? (files : Files) (path : String) : Option FileEntry :=
  if isFollowable path then (files.follow? [] (pathParts path)).bind files.at? else none

/-- The text in the file that a path leads to. -/
def readText? (files : Files) (path : String) : Option String :=
  match files.find? path with
  | some (.text content) => some content
  | _ => none

/-- Makes every folder on the way along the parts of a path, as far as nothing else is in the way
and the names can be given, and says whether the way is there to its end. -/
def makeFolders : (parts place : List String) → Files → Bool × Files
  | [], place, files => (files.at? place = some .folder, files)
  | part :: parts, place, files =>
    if isIdle part then makeFolders parts place files
    else if part = ".." then makeFolders parts place.dropLast files
    else
      let inner := place ++ [part]
      match files.at? inner with
      | some .folder => makeFolders parts inner files
      | some _ => (false, files)
      | none =>
        if isGivable part then makeFolders parts inner (files.put inner .folder)
        else (false, files)

/-- Makes a folder and those that it is in, and says whether it is there then. -/
def makeFolder (files : Files) (path : String) : Bool × Files :=
  if isFollowable path then makeFolders (pathParts path) [] files else (false, files)

end Files

end RunLedger.Project
