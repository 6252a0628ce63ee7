/-
  Json/Reader.lean --- reading JSON text.

  WHAT THIS FILE IS FOR.  `readDraft` reads a text as far as it goes; `parse?`
  accepts a text that is one value from end to end.  A text is read once from
  left to right and reading stops at the first fault.

  WHY IT ENDS.  Every call of the reader has taken at least one character since
  its caller was called, or is one of two helpers that its caller hands the same
  characters.  So twice the length of the text bounds the depth of calls, and
  that bound is the fuel.  Nesting has a limit of its own, which is part of the
  rules: the 128th open bracket is refused.
-/
import RunLedger.Json.Draft
import RunLedger.Decimal.Scaled
import RunLedger.Text.Digit

set_option autoImplicit false

namespace RunLedger.Json

open RunLedger.Decimal
open RunLedger.Text (isDigit spanDigits ofDigits)

/-! ## Characters -/

/-- The blanks that may stand between tokens. -/
def isSpace (c : Char) : Bool :=
  c == ' ' || c == '\n' || c == '\t' || c == '\r'

/-- The rest of a text after the blanks in front. -/
def skipSpace (cs : List Char) : List Char := cs.dropWhile isSpace

/-- The value of a hexadecimal digit, in either case. -/
def hexValue? (c : Char) : Option Nat :=
  if '0' ≤ c ∧ c ≤ '9' then some (c.toNat - 48)
  else if 'a' ≤ c ∧ c ≤ 'f' then some (c.toNat - 87)
  else if 'A' ≤ c ∧ c ≤ 'F' then some (c.toNat - 55)
  else none

/-- The number written by four hexadecimal digits. -/
def hexQuad? (a b c d : Char) : Option Nat := do
  let a ← hexValue? a
  let b ← hexValue? b
  let c ← hexValue? c
  let d ← hexValue? d
  return ((a * 16 + b) * 16 + c) * 16 + d

/-! ## Strings -/

/-- The character that a one-letter escape stands for. -/
def shortEscape? : Char → Option Char
  | '"' => some '"'
  | '\\' => some '\\'
  | '/' => some '/'
  | 'b' => some '\x08'
  | 'f' => some '\x0c'
  | 'n' => some '\n'
  | 'r' => some '\r'
  | 't' => some '\t'
  | _ => none

/-- The first half of a surrogate pair. -/
def isHighSurrogate (n : Nat) : Bool := 0xD800 ≤ n && n ≤ 0xDBFF

/-- The second half of a surrogate pair. -/
def isLowSurrogate (n : Nat) : Bool := 0xDC00 ≤ n && n ≤ 0xDFFF

/-- The character of a surrogate pair. -/
def joinSurrogates (high low : Nat) : Char :=
  Char.ofNat (0x10000 + (high - 0xD800) * 0x400 + (low - 0xDC00))

/-- The fault of an escape by number that has fewer than four characters left: four bytes are
asked for before they are looked at. -/
def shortQuad (cs : List Char) : SyntaxFault :=
  if 4 ≤ (cs.foldl (fun size c => size + c.utf8Size) 0) then .badEscape else .endInText

/-- A character put in front of a string that is still being read. -/
def pushChar (c : Char) : Except SyntaxFault (List Char × List Char) →
    Except SyntaxFault (List Char × List Char)
  | .ok (body, rest) => .ok (c :: body, rest)
  | .error fault => .error fault

/-- The characters of a string up to its closing quote, and the rest of the text. -/
def readText : List Char → Except SyntaxFault (List Char × List Char)
  | [] => .error .endInText
  | '"' :: rest => .ok ([], rest)
  | '\\' :: 'u' :: a :: b :: c :: d :: rest =>
    match hexQuad? a b c d with
    | none => .error .badEscape
    | some n =>
      if isLowSurrogate n then .error .loneSurrogate
      else if isHighSurrogate n then
        match rest with
        | [] => .error .endInText
        | '\\' :: [] => .error .endInText
        | '\\' :: 'u' :: e :: f :: g :: h :: rest' =>
          match hexQuad? e f g h with
          | none => .error .badEscape
          | some m =>
            if isLowSurrogate m then pushChar (joinSurrogates n m) (readText rest')
            else .error .loneSurrogate
        | '\\' :: 'u' :: short => .error (shortQuad short)
        | _ => .error .brokenSurrogate
      else pushChar (Char.ofNat n) (readText rest)
  | '\\' :: 'u' :: short => .error (shortQuad short)
  | '\\' :: [] => .error .endInText
  | '\\' :: c :: rest =>
    match shortEscape? c with
    | some e => pushChar e (readText rest)
    | none => .error .badEscape
  | c :: rest => if c.toNat < 0x20 then .error .controlCharacter else pushChar c (readText rest)

/-! ## Numbers -/

/-- What is read of a number behind its sign: digits before the point, digits after it when
there is a point, and the exponent when there is one. -/
structure NumberParts where
  whole : List Nat
  fraction : Option (List Nat)
  exponent : Option Int
  deriving DecidableEq, Repr, Inhabited

/-- The digits before the point: one zero, or digits that begin with another one. -/
def readWhole (cs : List Char) : Except SyntaxFault (List Nat × List Char) :=
  match cs with
  | [] => .error .endInValue
  | _ =>
    match spanDigits cs with
    | ([], _) => .error .badNumber
    | (0 :: _ :: _, _) => .error .badNumber
    | (digits, rest) => .ok (digits, rest)

/-- Digits where at least one is due. -/
def readDigits (cs : List Char) : Except SyntaxFault (List Nat × List Char) :=
  match spanDigits cs with
  | ([], []) => .error .endInValue
  | ([], _) => .error .badNumber
  | (digits, rest) => .ok (digits, rest)

/-- The digits after the point, if there is a point. -/
def readFraction (cs : List Char) : Except SyntaxFault (Option (List Nat) × List Char) :=
  match cs with
  | '.' :: cs => do
    let (digits, rest) ← readDigits cs
    return (some digits, rest)
  | _ => .ok (none, cs)

/-- The exponent, if there is one. -/
def readExponent (cs : List Char) : Except SyntaxFault (Option Int × List Char) :=
  let read (negative : Bool) (cs : List Char) : Except SyntaxFault (Option Int × List Char) := do
    let (digits, rest) ← readDigits cs
    let n := ofDigits digits
    return (some (if negative then -(n : Int) else n), rest)
  let signed (cs : List Char) : Except SyntaxFault (Option Int × List Char) :=
    match cs with
    | '+' :: cs => read false cs
    | '-' :: cs => read true cs
    | _ => read false cs
  match cs with
  | 'e' :: cs => signed cs
  | 'E' :: cs => signed cs
  | _ => .ok (none, cs)

/-- The number with these parts.  A whole number that fits 64 bits, signed if it is negative,
stays whole; minus zero and all others are binary64 numbers. -/
def NumberParts.toNumber? (parts : NumberParts) (negative : Bool) : Option Number :=
  let scaled := Scaled.ofDigits parts.whole (parts.fraction.getD [])
  let real (s : Scaled) : Option Number := (s.toBinary64? negative).map .real
  match parts.fraction, parts.exponent with
  | none, none =>
    if scaled.exponent ≠ 0 then real scaled
    else if !negative then some (.whole scaled.significand)
    else if 0 < scaled.significand ∧ scaled.significand ≤ twoPow 63 then
      some (.whole (-(scaled.significand : Int)))
    else real scaled
  | _, exponent => real { scaled with exponent := scaled.exponent + exponent.getD 0 }

/-- A number behind its sign. -/
def readNumber (negative : Bool) (cs : List Char) : Except SyntaxFault (Number × List Char) := do
  let (whole, cs) ← readWhole cs
  let (fraction, cs) ← readFraction cs
  let (exponent, cs) ← readExponent cs
  match (NumberParts.mk whole fraction exponent).toNumber? negative with
  | some n => return (n, cs)
  | none => throw .numberTooLarge

/-! ## Values -/

/-- What came of reading a value: its draft, and the rest of the text or the fault that ended
the reading. -/
abbrev DraftResult := Draft × Except SyntaxFault (List Char)

/-- The letters of a word still due. -/
def readWord : (word cs : List Char) → Except SyntaxFault (List Char)
  | [], cs => .ok cs
  | _ :: _, [] => .error .endInValue
  | w :: ws, c :: cs => if w = c then readWord ws cs else .error .wordExpected

/-- A value that is one token, or the fault that stands in its place. -/
def tokenResult (opening : Opening) : Except SyntaxFault (Draft × List Char) → DraftResult
  | .ok (draft, rest) => (draft, .ok rest)
  | .error fault => (.broken fault opening, .error fault)

/-- A value that is one token: a word, a number or a string. -/
def readToken (cs : List Char) : DraftResult :=
  match cs with
  | [] => tokenResult .nothing (.error .endInValue)
  | 'n' :: cs =>
    tokenResult .nullWord ((readWord ['u', 'l', 'l'] cs).map fun rest => (.null, rest))
  | 't' :: cs =>
    tokenResult .other ((readWord ['r', 'u', 'e'] cs).map fun rest => (.bool true, rest))
  | 'f' :: cs =>
    tokenResult .other ((readWord ['a', 'l', 's', 'e'] cs).map fun rest => (.bool false, rest))
  | '"' :: cs =>
    tokenResult .quote ((readText cs).map fun (body, rest) => (.text (String.ofList body), rest))
  | '-' :: cs =>
    tokenResult .other ((readNumber true cs).map fun (n, rest) => (.number n, rest))
  | c :: rest =>
    if isDigit c then
      tokenResult .other ((readNumber false (c :: rest)).map fun (n, rest) => (.number n, rest))
    else tokenResult .other (.error .valueExpected)

mutual

/-- A value, with blanks in front of it allowed. -/
def readValue : (fuel depth : Nat) → List Char → DraftResult
  | 0, _, _ => (.broken .tooDeep .other, .error .tooDeep)
  | fuel + 1, depth, cs =>
    match skipSpace cs with
    | '[' :: cs =>
      match depth with
      | 0 => (.broken .tooDeep .other, .error .tooDeep)
      | depth + 1 =>
        let (items, closing, rest) := readItems fuel depth true cs
        (.list items closing, rest)
    | '\x7b' :: cs =>
      match depth with
      | 0 => (.broken .tooDeep .other, .error .tooDeep)
      | depth + 1 =>
        let (members, closing, rest) := readMembers fuel depth true cs
        (.object members closing, rest)
    | cs => readToken cs

/-- The items of a list up to its closing bracket. -/
def readItems : (fuel depth : Nat) → (first : Bool) → List Char →
    List Draft × Closing × Except SyntaxFault (List Char)
  | 0, _, _, _ => ([], .broken .tooDeep, .error .tooDeep)
  | fuel + 1, depth, first, cs =>
    let stop (fault : SyntaxFault) := ([], .broken fault, .error fault)
    let item (cs : List Char) :=
      match readValue fuel depth cs with
      | (draft, .error fault) => ([draft], .broken fault, .error fault)
      | (draft, .ok rest) =>
        let (items, closing, rest) := readItems fuel depth false rest
        (draft :: items, closing, rest)
    match skipSpace cs with
    | [] => stop .endInList
    | ']' :: rest => ([], .closed, .ok rest)
    | c :: cs =>
      if first then item (c :: cs)
      else if c = ',' then
        match skipSpace cs with
        | [] => stop .endInValue
        | ']' :: _ => stop .commaAtEnd
        | cs => item cs
      else stop .listDelimiterExpected

/-- The members of an object up to its closing bracket. -/
def readMembers : (fuel depth : Nat) → (first : Bool) → List Char →
    List (String × Draft) × Closing × Except SyntaxFault (List Char)
  | 0, _, _, _ => ([], .broken .tooDeep, .error .tooDeep)
  | fuel + 1, depth, first, cs =>
    let stop (fault : SyntaxFault) := ([], .broken fault, .error fault)
    let member (cs : List Char) :=
      match readText cs with
      | .error fault => ([], .broken fault, .error fault)
      | .ok (key, rest) =>
        let key := String.ofList key
        let colon (fault : SyntaxFault) :=
          ([(key, .broken fault .nothing)], .broken fault, .error fault)
        match skipSpace rest with
        | [] => colon .endInObject
        | ':' :: rest =>
          match readValue fuel depth rest with
          | (draft, .error fault) => ([(key, draft)], .broken fault, .error fault)
          | (draft, .ok rest) =>
            let (members, closing, rest) := readMembers fuel depth false rest
            ((key, draft) :: members, closing, rest)
        | _ => colon .colonExpected
    match skipSpace cs with
    | [] => stop .endInObject
    | '\x7d' :: rest => ([], .closed, .ok rest)
    | c :: cs =>
      if first then
        if c = '"' then member cs else stop .keyNotText
      else if c = ',' then
        match skipSpace cs with
        | [] => stop .endInValue
        | '"' :: cs => member cs
        | '\x7d' :: _ => stop .commaAtEnd
        | _ => stop .keyNotText
      else stop .objectDelimiterExpected

end

/-- How many brackets may be open at one time. -/
def depthMax : Nat := 127

/-- The draft of a text, and the fault that something follows its value. -/
def readDraft (cs : List Char) : Draft × Option SyntaxFault :=
  match readValue (2 * cs.length + 2) depthMax cs with
  | (draft, .ok rest) => (draft, if (skipSpace rest).isEmpty then none else some .leftover)
  | (draft, .error _) => (draft, none)

/-- The value that a text writes. -/
def parse? (text : String) : Except SyntaxFault Json :=
  match readValue (2 * text.toList.length + 2) depthMax text.toList with
  | (_, .error fault) => .error fault
  | (draft, .ok rest) => if (skipSpace rest).isEmpty then .ok draft.toJson else .error .leftover

end RunLedger.Json
