/-
  Project/Setting.lean --- settings as text.

  WHAT THIS FILE IS FOR.  Settings are written one to a line, a key, an equals
  sign and a value, in the notation of TOML.  The settings of a project are
  texts, and names that may also be written as a table with nothing under the
  name.  Of the notation this much is read:

      # a comment
      key = "text with \"escapes\""      # another comment
      'key' = 'text as it stands'
      key = """
      text over
      several lines"""
      key = { name = {} }                # and so: key.name = []
      [key]                              # or, in one line: [key.name]
      name = {}

  A text with anything else in it, such as numbers or longer tables, is no list
  of settings of a project.
-/
import RunLedger.Json.Reader

set_option autoImplicit false

namespace RunLedger.Project

open RunLedger.Json (hexValue?)

/-! ## Characters -/

/-- The blanks inside a line. -/
def isLineBlank (c : Char) : Bool := c == ' ' || c == '\t'

/-- The characters that may stand in a quoted text or a comment. -/
def isPrintable (c : Char) : Bool :=
  c == '\t' || (0x20 ≤ c.toNat && c.toNat != 0x7F)

/-- The characters of a key without quotes. -/
def isKeyChar (c : Char) : Bool :=
  ('a' ≤ c && c ≤ 'z') || ('A' ≤ c && c ≤ 'Z') || ('0' ≤ c && c ≤ '9') || c == '_' || c == '-'

/-- What has been read, and what comes after it. -/
abbrev Read : Type := Option (List Char × List Char)

/-- A character put in front of what is still being read. -/
def before (c : Char) (read : Read) : Read :=
  read.map fun (body, rest) => (c :: body, rest)

/-! ## Escapes -/

/-- The character that a one-letter escape stands for. -/
def letterEscape? : Char → Option Char
  | 'b' => some '\x08'
  | 't' => some '\t'
  | 'n' => some '\n'
  | 'f' => some '\x0c'
  | 'r' => some '\r'
  | '"' => some '"'
  | '\\' => some '\\'
  | _ => none

/-- The number written by hexadecimal digits behind `soFar`. -/
def hexNumber? (soFar : Nat) : List Char → Option Nat
  | [] => some soFar
  | c :: cs => (hexValue? c).bind fun d => hexNumber? (soFar * 16 + d) cs

/-- The character with the code point that hexadecimal digits write. -/
def codedChar? (digits : List Char) : Option Char :=
  (hexNumber? 0 digits).bind fun n => if n.isValidChar then some (Char.ofNat n) else none

/-! ## Texts on one line -/

/-- A text up to its closing quote, with escapes. -/
def readBasic : List Char → Read
  | [] => none
  | '"' :: rest => some ([], rest)
  | '\\' :: 'u' :: a :: b :: c :: d :: rest =>
    (codedChar? [a, b, c, d]).bind fun char => before char (readBasic rest)
  | '\\' :: 'U' :: a :: b :: c :: d :: e :: f :: g :: h :: rest =>
    (codedChar? [a, b, c, d, e, f, g, h]).bind fun char => before char (readBasic rest)
  | '\\' :: c :: rest => (letterEscape? c).bind fun char => before char (readBasic rest)
  | c :: rest => if isPrintable c && c != '\\' then before c (readBasic rest) else none

/-- A text up to its closing quote, as it stands. -/
def readLiteral : List Char → Read
  | [] => none
  | c :: rest =>
    if c = '\'' then some ([], rest)
    else if isPrintable c then before c (readLiteral rest)
    else none

/-! ## Texts on several lines -/

/-- What a backslash at the end of a line has done. -/
inductive Folding where
  /-- nothing -/
  | none
  /-- it has been read, and the end of its line is due -/
  | begun
  /-- it is joining lines: blanks and ends of lines do not count -/
  | joining
  deriving DecidableEq, Repr, Inhabited

/-- A text up to three quotes, with escapes.  Up to two quotes may stand before the three. -/
def readLines : (folding : Folding) → List Char → Read
  | _, [] => none
  | .begun, '\r' :: '\n' :: rest => readLines .joining rest
  | .begun, c :: rest =>
    if c = '\n' then readLines .joining rest
    else if isLineBlank c then readLines .begun rest
    else none
  | .none, '\r' :: '\n' :: rest => before '\n' (readLines .none rest)
  | .joining, '\r' :: '\n' :: rest => readLines .joining rest
  | _, '"' :: '"' :: '"' :: '"' :: '"' :: rest => some (['"', '"'], rest)
  | _, '"' :: '"' :: '"' :: '"' :: rest => some (['"'], rest)
  | _, '"' :: '"' :: '"' :: rest => some ([], rest)
  | _, '\\' :: 'u' :: a :: b :: c :: d :: rest =>
    (codedChar? [a, b, c, d]).bind fun char => before char (readLines .none rest)
  | _, '\\' :: 'U' :: a :: b :: c :: d :: e :: f :: g :: h :: rest =>
    (codedChar? [a, b, c, d, e, f, g, h]).bind fun char => before char (readLines .none rest)
  | _, '\\' :: '\r' :: '\n' :: rest => readLines .joining rest
  | _, '\\' :: c :: rest =>
    if c = '\n' then readLines .joining rest
    else if isLineBlank c then readLines .begun rest
    else (letterEscape? c).bind fun char => before char (readLines .none rest)
  | .joining, c :: rest =>
    if c = '\n' || isLineBlank c then readLines .joining rest
    else if isPrintable c && c != '\\' then before c (readLines .none rest)
    else none
  | .none, c :: rest =>
    if c = '\n' || (isPrintable c && c != '\\') then before c (readLines .none rest) else none

/-- A text up to three apostrophes, as it stands.  Up to two may stand before the three. -/
def readLiteralLines : List Char → Read
  | [] => none
  | '\'' :: '\'' :: '\'' :: '\'' :: '\'' :: rest => some (['\'', '\''], rest)
  | '\'' :: '\'' :: '\'' :: '\'' :: rest => some (['\''], rest)
  | '\'' :: '\'' :: '\'' :: rest => some ([], rest)
  | '\r' :: '\n' :: rest => before '\n' (readLiteralLines rest)
  | c :: rest => if c = '\n' || isPrintable c then before c (readLiteralLines rest) else none

/-- The rest of a text behind the end of a line, if one comes first. -/
def dropLineEnd : List Char → List Char
  | '\n' :: rest => rest
  | '\r' :: '\n' :: rest => rest
  | cs => cs

/-- A quoted text, whichever its quotes are. -/
def readQuoted : List Char → Read
  | '"' :: '"' :: '"' :: rest => readLines .none (dropLineEnd rest)
  | '\'' :: '\'' :: '\'' :: rest => readLiteralLines (dropLineEnd rest)
  | '"' :: rest => readBasic rest
  | '\'' :: rest => readLiteral rest
  | _ => none

/-! ## Keys and ends of lines -/

/-- A key: quoted on one line, or made of plain characters. -/
def readKey : List Char → Read
  | '"' :: rest => readBasic rest
  | '\'' :: rest => readLiteral rest
  | cs =>
    match cs.takeWhile isKeyChar with
    | [] => none
    | key => some (key, cs.dropWhile isKeyChar)

/-- A text without the blanks in front. -/
def skipLineBlanks (cs : List Char) : List Char := cs.dropWhile isLineBlank

/-- The rest of a text behind what may end a line: blanks, a comment, and the end. -/
def endLine? (cs : List Char) : Option (List Char) :=
  let rest :=
    match skipLineBlanks cs with
    | '#' :: comment => comment.dropWhile isPrintable
    | other => other
  match rest with
  | [] => some []
  | '\n' :: rest => some rest
  | '\r' :: '\n' :: rest => some rest
  | _ => none

/-- Keys with points between them, up to what comes after them and the blanks behind.  Every key
takes at least one character, so `fuel` keys are enough for as many characters. -/
def readPath : (fuel : Nat) → List Char → Option (List String × List Char)
  | 0, _ => none
  | fuel + 1, cs => do
    let (key, cs) ← readKey (skipLineBlanks cs)
    match skipLineBlanks cs with
    | '.' :: cs => (readPath fuel cs).map fun (keys, rest) => (String.ofList key :: keys, rest)
    | cs => return ([String.ofList key], cs)

/-- A text without the blanks, the comments and the ends of lines in front.  Every line takes at
least one character. -/
def skipLines : (fuel : Nat) → List Char → List Char
  | 0, cs => cs
  | fuel + 1, cs =>
    match endLine? cs with
    | some rest => skipLines fuel rest
    | none => skipLineBlanks cs

/-! ## Values -/

/-- What a setting is set to. -/
inductive SettingValue where
  | text (value : String)
  /-- an empty list or table -/
  | nothing
  /-- a table with nothing under a single name -/
  | name (value : String)
  deriving DecidableEq, Repr, Inhabited

/-- The rest of a text behind an empty list or table. -/
def readNothing? : List Char → Option (List Char)
  | '[' :: cs =>
    match skipLines cs.length cs with
    | ']' :: rest => some rest
    | _ => none
  | '\x7b' :: cs =>
    match skipLineBlanks cs with
    | '\x7d' :: rest => some rest
    | _ => none
  | _ => none

/-- A table with nothing under a single name, behind its opening brace. -/
def readName? (cs : List Char) : Option (SettingValue × List Char) := do
  let (path, cs) ← readPath cs.length cs
  match path, cs with
  | [name], '=' :: cs =>
    let cs ← readNothing? (skipLineBlanks cs)
    match skipLineBlanks cs with
    | '\x7d' :: rest => return (.name name, rest)
    | _ => none
  | _, _ => none

/-- A value. -/
def readValue? (cs : List Char) : Option (SettingValue × List Char) :=
  match readNothing? cs, cs with
  | some rest, _ => some (.nothing, rest)
  | none, '\x7b' :: cs => readName? cs
  | none, cs => (readQuoted cs).map fun (body, rest) => (.text (String.ofList body), rest)

/-! ## Lines -/

/-- A path and what it is set to. -/
abbrev Assignment : Type := List String × SettingValue

/-- A line that is not blank. -/
inductive Line where
  | assignment (path : List String) (value : SettingValue)
  /-- the start of a table -/
  | table (path : List String)
  deriving DecidableEq, Repr, Inhabited

/-- The line that a text begins with, up to its end. -/
def readLine? : List Char → Option (Line × List Char)
  | '[' :: cs => do
    let (path, cs) ← readPath cs.length cs
    match cs with
    | ']' :: cs => return (.table path, ← endLine? cs)
    | _ => none
  | cs => do
    let (path, cs) ← readPath cs.length cs
    match cs with
    | '=' :: cs =>
      let (value, cs) ← readValue? (skipLineBlanks cs)
      return (.assignment path value, ← endLine? cs)
    | _ => none

/-- The lines of a text that are not blank.  Every line takes at least one character, so `fuel`
lines are enough for as many characters. -/
def readDocument? : (fuel : Nat) → List Char → Option (List Line)
  | _, [] => some []
  | 0, _ :: _ => none
  | fuel + 1, cs =>
    match endLine? cs with
    | some rest => readDocument? fuel rest
    | none =>
      match readLine? (skipLineBlanks cs) with
      | none => none
      | some (line, rest) => (readDocument? fuel rest).map (line :: ·)

/-- A text without the mark that may stand before everything else. -/
def dropByteOrderMark : List Char → List Char
  | '\ufeff' :: cs => cs
  | cs => cs

/-! ## Settings -/

/-- A setting: its key and what it is set to. -/
abbrev Setting : Type := String × SettingValue

/-- A table with its own lines. -/
structure SettingTable where
  path : List String
  assignments : List Assignment
  deriving DecidableEq, Repr, Inhabited

/-- The lines before all tables, and the tables. -/
def inTables : List Line → List Assignment × List SettingTable
  | [] => ([], [])
  | .assignment path value :: rest =>
    let (assignments, tables) := inTables rest
    ((path, value) :: assignments, tables)
  | .table path :: rest =>
    let (assignments, tables) := inTables rest
    ([], ⟨path, assignments⟩ :: tables)

/-- The setting of a line before all tables. -/
def settingOf? : Assignment → Option Setting
  | ([key], value) => some (key, value)
  | ([key, name], .nothing) => some (key, .name name)
  | _ => none

/-- The settings of a table: one for each name with nothing under it.  A name can have a table of
its own. -/
def SettingTable.settings? (table : SettingTable) : Option (List Setting) :=
  match table.path, table.assignments with
  | [key], assignments =>
    assignments.mapM fun
      | ([name], .nothing) => some (key, .name name)
      | _ => none
  | [key, name], [] => some [(key, .name name)]
  | _, _ => none

/-- The settings of a text, if it is a list of settings with no key and no table twice, and no
table without a setting. -/
def settingsOf? (content : String) : Option (List Setting) := do
  let cs := dropByteOrderMark content.toList
  let (assignments, tables) := inTables (← readDocument? cs.length cs)
  let before ← assignments.mapM settingOf?
  let within := (← tables.mapM SettingTable.settings?).flatten
  let keys := (before ++ within).map Prod.fst
  let isSet (table : SettingTable) : Bool :=
    within.any fun setting => table.path.head? == some setting.1
  if keys.Nodup ∧ (tables.map SettingTable.path).Nodup ∧ tables.all isSet then
    return before ++ within
  else none

end RunLedger.Project
