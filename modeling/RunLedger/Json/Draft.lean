/-
  Json/Draft.lean --- a text of JSON, as far as it can be read.

  WHAT THIS FILE IS FOR.  A stored payload is decoded while it is read: the
  first thing that is wrong decides the refusal, whether it is the syntax of the
  text or a value of the wrong kind.  A DRAFT keeps what is needed to say which
  comes first.  It is the tree of the values that were read, members in the
  order of the text and repeated keys included, and where the syntax breaks down
  it says so at that place.

  A value that is already at hand is a draft without faults, the members of its
  objects in key order: it has no other order to go by.
-/
import RunLedger.Json.Basic

set_option autoImplicit false

namespace RunLedger.Json

/-- Why a text is not JSON. -/
inductive SyntaxFault where
  /-- the text ends where a value, or the rest of one, is due -/
  | endInValue
  /-- the text ends inside a list -/
  | endInList
  /-- the text ends inside an object -/
  | endInObject
  /-- the text ends inside a string -/
  | endInText
  /-- no colon after the key of a member -/
  | colonExpected
  /-- neither a comma nor the end of the list after an item -/
  | listDelimiterExpected
  /-- neither a comma nor the end of the object after a member -/
  | objectDelimiterExpected
  /-- a word other than the three of JSON -/
  | wordExpected
  /-- a character that no value begins with -/
  | valueExpected
  /-- a backslash before a character that it does not escape -/
  | badEscape
  /-- a number with a part missing or a zero in front -/
  | badNumber
  /-- a number beyond the finite ones -/
  | numberTooLarge
  /-- a control character that is not escaped -/
  | controlCharacter
  /-- a member that does not begin with a string -/
  | keyNotText
  /-- the second half of a surrogate pair without the first, or the first without the second -/
  | loneSurrogate
  /-- the first half of a surrogate pair and then no escape -/
  | brokenSurrogate
  /-- a comma before a closing bracket -/
  | commaAtEnd
  /-- something after the end of a value -/
  | leftover
  /-- lists and objects nested too deeply -/
  | tooDeep
  deriving DecidableEq, Repr, Inhabited

/-- The wording of a syntax fault. -/
def SyntaxFault.message : SyntaxFault → String
  | .endInValue => "EOF while parsing a value"
  | .endInList => "EOF while parsing a list"
  | .endInObject => "EOF while parsing an object"
  | .endInText => "EOF while parsing a string"
  | .colonExpected => "expected `:`"
  | .listDelimiterExpected => "expected `,` or `]`"
  | .objectDelimiterExpected => "expected `,` or `\x7d`"
  | .wordExpected => "expected ident"
  | .valueExpected => "expected value"
  | .badEscape => "invalid escape"
  | .badNumber => "invalid number"
  | .numberTooLarge => "number out of range"
  | .controlCharacter => "control character (\\u0000-\\u001F) found while parsing a string"
  | .keyNotText => "key must be a string"
  | .loneSurrogate => "lone leading surrogate in hex escape"
  | .brokenSurrogate => "unexpected end of hex escape"
  | .commaAtEnd => "trailing comma"
  | .leftover => "trailing characters"
  | .tooDeep => "recursion limit exceeded"

/-- What a value that could not be read begins with. -/
inductive Opening where
  /-- no value: the text ends there, or the colon in front is missing -/
  | nothing
  /-- a quote -/
  | quote
  /-- the first letter of the word null -/
  | nullWord
  /-- anything else -/
  | other
  deriving DecidableEq, Repr, Inhabited

/-- The kind of a value, as a refusal names it. -/
inductive Found where
  | null
  | bool (value : Bool)
  | number (value : Number)
  | text (value : String)
  | list
  | object
  deriving DecidableEq, Repr, Inhabited

/-- How a list or an object ends. -/
inductive Closing where
  /-- with its bracket -/
  | closed
  /-- the syntax breaks down -/
  | broken (fault : SyntaxFault)
  deriving DecidableEq, Repr, Inhabited

/-- A text of JSON, as far as it can be read. -/
inductive Draft where
  | null
  | bool (value : Bool)
  | number (value : Number)
  | text (value : String)
  | list (items : List Draft) (closing : Closing)
  | object (members : List (String × Draft)) (closing : Closing)
  | broken (fault : SyntaxFault) (opening : Opening)
  deriving Repr, Inhabited

/-! ## Between values and drafts -/

mutual

/-- A value as a draft without faults, the members of objects in key order. -/
def toDraft : Json → Draft
  | .null => .null
  | .bool b => .bool b
  | .number n => .number n
  | .text s => .text s
  | .list items => .list (toDraftItems items) .closed
  | .object members => .object ((toDraftMembers members).mergeSort keyLe) .closed

/-- The items of a list as drafts. -/
def toDraftItems : List Json → List Draft
  | [] => []
  | item :: rest => toDraft item :: toDraftItems rest

/-- The members of an object as drafts. -/
def toDraftMembers : List (String × Json) → List (String × Draft)
  | [] => []
  | (key, value) :: rest => (key, toDraft value) :: toDraftMembers rest

end

mutual

/-- The value of a draft without faults: the members of every object in key order, of members
with one key the last.  What is broken counts as null. -/
def Draft.toJson : Draft → Json
  | .null => .null
  | .bool b => .bool b
  | .number n => .number n
  | .text s => .text s
  | .list items _ => .list (Draft.toJsonItems items)
  | .object members _ => .object (sortMembers (Draft.toJsonMembers members))
  | .broken .. => .null

/-- The values of the items of a list. -/
def Draft.toJsonItems : List Draft → List Json
  | [] => []
  | item :: rest => item.toJson :: Draft.toJsonItems rest

/-- The values of the members of an object. -/
def Draft.toJsonMembers : List (String × Draft) → List (String × Json)
  | [] => []
  | (key, value) :: rest => (key, value.toJson) :: Draft.toJsonMembers rest

end

end RunLedger.Json
