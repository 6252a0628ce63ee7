/-
  Decode/Fault.lean --- why a document is not what it should be.

  WHAT THIS FILE IS FOR.  Decoding stops at the first thing that is wrong, and
  says what that is.  The causes are listed here with their wording, which
  callers see.
-/
import RunLedger.Json.Draft
import RunLedger.Json.Number
import RunLedger.Text.Shown

set_option autoImplicit false

namespace RunLedger

open RunLedger.Text (showText)

namespace Json

/-- How a refusal names the value that it found. -/
def Found.describe : Found → String
  | .null => "null"
  | .bool true => "boolean `true`"
  | .bool false => "boolean `false`"
  | .number (.whole n) => "integer `" ++ String.ofList (intChars n) ++ "`"
  | .number (.real x) => "floating point `" ++ String.ofList (realChars x) ++ "`"
  | .text s => "string " ++ showText s
  | .list => "sequence"
  | .object => "map"

end Json

namespace Decode

open RunLedger.Json (SyntaxFault Found)

/-- Why a document could not be decoded. -/
inductive Fault where
  /-- the text is not JSON from here on -/
  | badSyntax (fault : SyntaxFault)
  /-- a value of another kind than the one that is due -/
  | wrongType (found : Found) (wanted : String)
  /-- a whole number outside the range that is due -/
  | outOfRange (value : Int) (wanted : String)
  /-- an object in place of a name that has not exactly one member -/
  | notSingleKey
  /-- a field that must be there is not -/
  | missingField (name : String)
  /-- a field that the record does not have -/
  | unknownField (name : String) (known : List String)
  /-- a field that is there twice -/
  | duplicateField (name : String)
  /-- a name outside the list of names that is due -/
  | unknownName (name : String) (known : List String)
  /-- a list that ends before the field with this number -/
  | tooFewItems (number : Nat) (record : String) (size : Nat)
  /-- a list with more items than the record has fields -/
  | tooManyItems (count : Nat)
  /-- a string that is not a timestamp; `refusal` is what is said about it -/
  | badTimestamp (refusal : String)
  deriving DecidableEq, Repr, Inhabited

/-- A name in backticks. -/
def ticked (name : String) : String := "`" ++ name ++ "`"

/-- The names that would have been accepted. -/
def expectedNames : List String → String
  | [a] => "expected " ++ ticked a
  | [a, b] => "expected " ++ ticked a ++ " or " ++ ticked b
  | names => "expected one of " ++ String.intercalate ", " (names.map ticked)

namespace Fault

/-- The wording of a refusal. -/
def message : Fault → String
  | badSyntax fault => fault.message
  | wrongType found wanted => "invalid type: " ++ found.describe ++ ", expected " ++ wanted
  | outOfRange value wanted =>
    "invalid value: integer " ++ ticked (String.ofList (Json.intChars value)) ++
      ", expected " ++ wanted
  | notSingleKey => "invalid value: map, expected map with a single key"
  | missingField name => "missing field " ++ ticked name
  | unknownField name known =>
    "unknown field " ++ ticked name ++ ", " ++ expectedNames known
  | duplicateField name => "duplicate field " ++ ticked name
  | unknownName name known =>
    "unknown variant " ++ ticked name ++ ", " ++ expectedNames known
  | tooFewItems number record size =>
    "invalid length " ++ toString number ++ ", expected " ++ record ++ " with " ++
      toString size ++ (if size = 1 then " element" else " elements")
  | tooManyItems count =>
    "invalid length " ++ toString count ++ ", expected fewer elements in array"
  | badTimestamp refusal => refusal

end Fault

end Decode

end RunLedger
