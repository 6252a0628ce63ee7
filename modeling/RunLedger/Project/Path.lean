/-
  Project/Path.lean --- paths as text.

  WHAT THIS FILE IS FOR.  A path is a chain of names with slashes between them.
  Paths are shown as they were put together, so they are joined and cut as text;
  what a path leads to is another matter.  All paths here begin with a slash.
-/

set_option autoImplicit false

namespace RunLedger.Project

/-- A text cut at every slash. -/
def cutAtSlashes : List Char → List (List Char)
  | [] => [[]]
  | c :: cs =>
    match cutAtSlashes cs with
    | [] => [[c]]
    | part :: parts => if c = '/' then [] :: part :: parts else (c :: part) :: parts

/-- The parts of a path: names, and parts that lead nowhere else. -/
def pathParts (path : String) : List String :=
  (cutAtSlashes path.toList).map String.ofList

/-- A path that begins with a slash does not depend on where it is used. -/
def isAbsolute (path : String) : Bool := path.toList.head? == some '/'

/-- A path as it is used in a folder. -/
def joinPath (folder path : String) : String :=
  if isAbsolute path then path
  else if folder.toList.getLast? == some '/' then folder ++ path
  else folder ++ "/" ++ path

/-- A part that leads nowhere else. -/
def isIdle (part : String) : Bool := part == "" || part == "."

/-! ## Limits -/

/-- How many bytes a name may have. -/
def nameSizeMax : Nat := 255

/-- How many bytes a path may have. -/
def pathSizeMax : Nat := 4095

/-- A name can be given to a file or a folder. -/
def isGivable (name : String) : Bool := name.utf8ByteSize ≤ nameSizeMax

/-- A path can be followed at all: it is not too long, and the character zero would end it. -/
def isFollowable (path : String) : Bool :=
  path.utf8ByteSize ≤ pathSizeMax && !path.toList.contains '\x00'

/-! ## Folders -/

/-- The path of the folder that a path leads into; the root folder is in none. -/
def parentPath? (path : String) : Option String :=
  match (pathParts path).reverse.dropWhile isIdle with
  | [] => none
  | _ :: before => some ("/" ++ String.intercalate "/" ((before.dropWhile isIdle).reverse.drop 1))

end RunLedger.Project
