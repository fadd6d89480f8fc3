import Tlm.Shared.Decimal
import Mathlib.Data.List.Sort

set_option autoImplicit false

namespace Tlm.MetaSchedule

open Cpp

abbrev Bytes := List UInt8

def ascii (text : String) : Bytes :=
  text.toList.map fun c => UInt8.ofNat c.toNat

inductive JsonValue where
  | null
  | bool (value : Bool)
  | int (value : Int64)
  | float (bits : UInt64)
  | str (data : Bytes)
  | arr (items : List JsonValue)
  | dict (entries : List (Bytes × JsonValue))

-- `os << std::setprecision(20) << value` and `std::stod`.
structure FloatText where
  print : UInt64 → Bytes
  stod : Bytes → Option UInt64

def quote : UInt8 := 0x22
def backslash : UInt8 := 0x5C

def hexDigit (digit : UInt8) : UInt8 :=
  (ascii "0123456789ABCDEF").getD digit.toNat 0

def escapeByte (c : UInt8) : Bytes :=
  if 0x20 ≤ c ∧ c ≤ 0x7E ∧ c ≠ backslash ∧ c ≠ quote then [c]
  else if c = quote then [backslash, quote]
  else if c = backslash then [backslash, backslash]
  else if c = 0x09 then backslash :: ascii "t"
  else if c = 0x0D then backslash :: ascii "r"
  else if c = 0x0A then backslash :: ascii "n"
  else backslash :: ascii "x" ++ [hexDigit (c >>> 4), hexDigit (c &&& 0x0F)]

def strEscape (data : Bytes) : Bytes :=
  data.flatMap escapeByte

def quoted (data : Bytes) : Bytes :=
  quote :: strEscape data ++ [quote]

-- `String::memncmp`, on signed characters.
def memncmp : Bytes → Bytes → Ordering
  | [], [] => .eq
  | [], _ :: _ => .lt
  | _ :: _, [] => .gt
  | a :: lhs, b :: rhs =>
    if a.toInt8 < b.toInt8 then .lt
    else if b.toInt8 < a.toInt8 then .gt
    else memncmp lhs rhs

-- `std::sort` of the entries. The keys of a map differ, so the values are never compared.
def sortEntries {β : Type} (entries : List (Bytes × β)) : List (Bytes × β) :=
  entries.insertionSort fun a b => memncmp a.1 b.1 ≠ .gt

def separated : List Bytes → Bytes
  | [] => []
  | first :: rest => first ++ rest.flatMap fun text => ascii "," ++ text

def entryText (entry : Bytes × Bytes) : Bytes :=
  quoted entry.1 ++ ascii ":" ++ entry.2

section

variable (floats : FloatText)

mutual

def dumps : JsonValue → Bytes
  | .null => ascii "null"
  | .bool true => ascii "true"
  | .bool false => ascii "false"
  | .int value => ascii (toString value.toInt)
  | .float bits => floats.print bits
  | .str data => quoted data
  | .arr items => ascii "[" ++ separated (dumpItems items) ++ ascii "]"
  | .dict entries =>
    ascii "\x7b" ++ separated ((sortEntries (dumpEntries entries)).map entryText) ++ ascii "\x7d"

def dumpItems : List JsonValue → List Bytes
  | [] => []
  | item :: rest => dumps item :: dumpItems rest

def dumpEntries : List (Bytes × JsonValue) → List (Bytes × Bytes)
  | [] => []
  | (key, value) :: rest => (key, dumps value) :: dumpEntries rest

end

end

inductive Token where
  | eof
  | null
  | true
  | false
  | leftSquare
  | rightSquare
  | leftCurly
  | rightCurly
  | comma
  | colon
  | integer (value : Int64)
  | float (bits : UInt64)
  | string (data : Bytes)
  deriving DecidableEq

def isSpaceByte (b : UInt8) : Bool :=
  b = 0x20 ∨ (0x09 ≤ b ∧ b ≤ 0x0D)

def nextLiteral (literal text : Bytes) : Option Bytes :=
  if literal.isPrefixOf text then some (text.drop literal.length) else none

def literals : List (Bytes × Token) :=
  [(ascii "[", .leftSquare), (ascii "]", .rightSquare), (ascii "\x7b", .leftCurly),
    (ascii "\x7d", .rightCurly), (ascii ",", .comma), (ascii ":", .colon), (ascii "null", .null),
    (ascii "true", .true), (ascii "false", .false)]

def unescape (c : UInt8) : Except Fault UInt8 :=
  if c = quote then .ok quote
  else if c = backslash then .ok backslash
  else if c = 0x2F then .ok 0x2F
  else if [c] = ascii "b" then .ok 0x08
  else if [c] = ascii "f" then .ok 0x0C
  else if [c] = ascii "n" then .ok 0x0A
  else if [c] = ascii "r" then .ok 0x0D
  else if [c] = ascii "t" then .ok 0x09
  else .error .check

def scanString : Bool → Bytes → Except Fault (Bytes × Bytes)
  | _, [] => .error .check
  | .true, c :: rest => do
      let b ← unescape c
      let (data, rest) ← scanString false rest
      return (b :: data, rest)
  | false, c :: rest =>
    if c = quote then .ok ([], rest)
    else if c = backslash then scanString true rest
    else do
      let (data, rest) ← scanString false rest
      return (c :: data, rest)

def isNumberByte (b : UInt8) : Bool :=
  (0x30 ≤ b ∧ b ≤ 0x39) ∨ b = 0x2B ∨ b = 0x2D ∨ b = 0x2E ∨ b = 0x65 ∨ b = 0x45

def isFloatByte (b : UInt8) : Bool :=
  b = 0x2E ∨ b = 0x65 ∨ b = 0x45

section

variable (floats : FloatText)

-- What `std::stoll` refuses goes to `std::stod`; what that refuses leaves the token unset.
def scanNumber (digits : Bytes) : Except Fault Token :=
  match digits.any isFloatByte, stol (.ofList (digits.map fun b => Char.ofNat b.toNat)) with
  | false, .ok value => .ok (.integer value)
  | _, _ => .float <$> found .undefined (floats.stod digits)

def next (text : Bytes) : Except Fault (Token × Bytes) :=
  match text.dropWhile isSpaceByte with
  | [] => .ok (.eof, [])
  | c :: rest =>
    match literals.findSome? fun entry =>
        (nextLiteral entry.1 (c :: rest)).map fun rest => (entry.2, rest) with
    | some read => .ok read
    | none =>
      if c = quote then do
        let (data, rest) ← scanString Bool.false rest
        return (.string data, rest)
      else do
        let digits := (c :: rest).takeWhile isNumberByte
        ensure .check (digits ≠ [])
        return (← scanNumber floats digits, (c :: rest).drop digits.length)

def setEntry (key : Bytes) (value : JsonValue) :
    List (Bytes × JsonValue) → List (Bytes × JsonValue)
  | [] => [(key, value)]
  | entry :: rest =>
    if entry.1 = key then (key, value) :: rest else entry :: setEntry key value rest

-- `key->IsInstance<StringObj>()` follows a null pointer for `null`.
def asKey : JsonValue → Except Fault Bytes
  | .str data => .ok data
  | .null => .error .undefined
  | _ => .error .check

mutual

def parseObject : Nat → Token → Bytes → Except Fault (JsonValue × Bytes)
  | 0, _, _ => .error .undefined
  | fuel + 1, token, text =>
    match token with
    | .null => .ok (.null, text)
    | .true => .ok (.bool Bool.true, text)
    | .false => .ok (.bool Bool.false, text)
    | .leftSquare => do
        let (items, text) ← parseArray fuel Bool.true [] text
        return (.arr items, text)
    | .leftCurly => do
        let (entries, text) ← parseDict fuel Bool.true [] text
        return (.dict entries, text)
    | .string data => .ok (.str data, text)
    | .integer value => .ok (.int value, text)
    | .float bits => .ok (.float bits, text)
    | .rightSquare | .rightCurly | .comma | .colon | .eof => .error .check

def parseArray : Nat → Bool → List JsonValue → Bytes → Except Fault (List JsonValue × Bytes)
  | 0, _, _, _ => .error .undefined
  | fuel + 1, isFirst, results, text => do
      let (token, text) ← if isFirst then .ok (.comma, text) else next floats text
      match token with
      | .rightSquare => return (results, text)
      | .comma =>
        let (token, text) ← next floats text
        if token = .rightSquare then return (results, text)
        let (item, text) ← parseObject fuel token text
        parseArray fuel Bool.false (results ++ [item]) text
      | _ => throw .check

def parseDict : Nat → Bool → List (Bytes × JsonValue) → Bytes →
    Except Fault (List (Bytes × JsonValue) × Bytes)
  | 0, _, _, _ => .error .undefined
  | fuel + 1, isFirst, results, text => do
      let (token, text) ← if isFirst then .ok (.comma, text) else next floats text
      match token with
      | .rightCurly => return (results, text)
      | .comma =>
        let (token, text) ← next floats text
        if token = .rightCurly then return (results, text)
        let (key, text) ← parseObject fuel token text
        let key ← asKey key
        let (token, text) ← next floats text
        ensure .check (token = .colon)
        let (token, text) ← next floats text
        let (value, text) ← parseObject fuel token text
        parseDict fuel Bool.false (setEntry key value results) text
      | _ => throw .check

end

-- Every call reads at least one byte, so the recursion is bounded by the length of the text.
def loads (text : Bytes) : Except Fault JsonValue := do
  let (token, rest) ← next floats text
  if token = .eof then return .null
  let (value, _) ← parseObject floats (text.length + 1) token rest
  return value

end

end Tlm.MetaSchedule
