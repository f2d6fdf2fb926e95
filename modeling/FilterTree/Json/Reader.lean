import FilterTree.Value
import FilterTree.Number.Decimal
import FilterTree.Text.Half

/-! Reading JSON text. Every rejection names its cause and the place where it was noticed; the words
for infinity and not-a-number are accepted, and of equal keys the last value counts. -/

namespace FilterTree.Json

inductive Cause where
  | byteOrderMark
  | valueExpected
  | nameExpected
  | colonExpected
  | commaExpected
  | extraData
  | controlCharacter
  | badEscape
  | badCodePoint
  | unterminated
  deriving DecidableEq, Repr

def Cause.message : Cause → String
  | .byteOrderMark => "Unexpected UTF-8 BOM (decode using utf-8-sig)"
  | .valueExpected => "Expecting value"
  | .nameExpected => "Expecting property name enclosed in double quotes"
  | .colonExpected => "Expecting ':' delimiter"
  | .commaExpected => "Expecting ',' delimiter"
  | .extraData => "Extra data"
  | .controlCharacter => "Invalid control character at"
  | .badEscape => "Invalid \\escape"
  | .badCodePoint => "Invalid \\uXXXX escape"
  | .unterminated => "Unterminated string starting at"

/-- Why and where reading stopped: the place is given by the characters left from there on. An
integer of too many digits is no fault of the text. -/
inductive Fault where
  | syntaxFault (cause : Cause) (left : List Char)
  | tooManyDigits
  deriving DecidableEq, Repr

def fail {α : Type} (cause : Cause) (left : List Char) : Except Fault α :=
  .error (.syntaxFault cause left)

def isBlank (c : Char) : Bool :=
  c = ' ' || c = '\t' || c = '\n' || c = '\r'

def skipBlanks (cs : List Char) : List Char :=
  cs.dropWhile isBlank

def hexDigit? (c : Char) : Option Nat :=
  if c.isDigit then some (c.toNat - '0'.toNat)
  else if 'a' ≤ c ∧ c ≤ 'f' then some (c.toNat - 'a'.toNat + 10)
  else if 'A' ≤ c ∧ c ≤ 'F' then some (c.toNat - 'A'.toNat + 10)
  else none

def codeUnit? : List Char → Option (Nat × List Char)
  | a :: b :: c :: d :: rest => do
    let a ← hexDigit? a
    let b ← hexDigit? b
    let c ← hexDigit? c
    let d ← hexDigit? d
    return (((a * 16 + b) * 16 + c) * 16 + d, rest)
  | _ => none

/-- The character of a code unit together with the low half that may follow a high one. The two are
left alone when the text ends right after the low one. -/
def joinHalves (unit : Nat) (rest : List Char) : Char × List Char :=
  if isHighHalf unit then
    match rest with
    | '\\' :: 'u' :: more =>
      match codeUnit? more with
      | some (low, rest') =>
        if isLowHalf low && !rest'.isEmpty then
          (Char.ofNat (0x10000 + (unit - 0xd800) * 0x400 + (low - 0xdc00)), rest')
        else (loneHalf, rest)
      | none => (loneHalf, rest)
    | _ => (loneHalf, rest)
  else if isLowHalf unit then (loneHalf, rest)
  else (Char.ofNat unit, rest)

def simpleEscape? : Char → Option Char
  | '"' => some '"'
  | '\\' => some '\\'
  | '/' => some '/'
  | 'b' => some '\x08'
  | 'f' => some '\x0c'
  | 'n' => some '\n'
  | 'r' => some '\r'
  | 't' => some '\t'
  | _ => none

def readString (start : List Char) : Nat → List Char → List Char → Except Fault (String × List Char)
  | 0, _, _ => fail .unterminated start
  | fuel + 1, done, cs =>
    match cs with
    | [] => fail .unterminated start
    | '"' :: rest => .ok (String.ofList done.reverse, rest)
    | '\\' :: [] => fail .unterminated start
    | '\\' :: 'u' :: rest =>
      match codeUnit? rest with
      | none => fail .badCodePoint ('u' :: rest)
      | some (unit, rest) =>
        if rest.isEmpty then fail .badCodePoint (cs.drop 1)
        else
          let (c, rest) := joinHalves unit rest
          readString start fuel (c :: done) rest
    | '\\' :: e :: rest =>
      match simpleEscape? e with
      | none => fail .badEscape cs
      | some c => readString start fuel (c :: done) rest
    | c :: rest =>
      if c.toNat < 0x20 then fail .controlCharacter cs
      else readString start fuel (c :: done) rest

def fractionDigits : List Char → List Char × List Char
  | '.' :: d :: rest =>
    if d.isDigit then
      (d :: rest.takeWhile Char.isDigit, rest.dropWhile Char.isDigit)
    else ([], '.' :: d :: rest)
  | cs => ([], cs)

def exponent? (cs : List Char) : Option Int × List Char :=
  match cs with
  | e :: rest =>
    if e = 'e' ∨ e = 'E' then
      let (down, ds) := match rest with
        | '-' :: t => (true, t)
        | '+' :: t => (false, t)
        | t => (false, t)
      let digits := ds.takeWhile Char.isDigit
      if digits.isEmpty then (none, cs)
      else
        let n : Int := digitsValue digits
        (some (if down then -n else n), ds.dropWhile Char.isDigit)
    else (none, cs)
  | [] => (none, cs)

def digitLimit : Nat := 4300

def readNumber (negative : Bool) (start cs : List Char) : Except Fault (Value × List Char) :=
  match cs with
  | [] => fail .valueExpected start
  | d :: rest =>
    if d.isDigit then
      let whole := if d = '0' then ['0'] else d :: rest.takeWhile Char.isDigit
      let rest := if d = '0' then rest else rest.dropWhile Char.isDigit
      let (fraction, rest) := fractionDigits rest
      let (exponent, rest) := exponent? rest
      if fraction.isEmpty && exponent.isNone then
        if digitLimit < whole.length then .error .tooManyDigits
        else
          let n : Int := digitsValue whole
          .ok (.int (if negative then -n else n), rest)
      else
        let e := exponent.getD 0 - fraction.length
        .ok (.float (.ofDecimal negative (digitsValue (whole ++ fraction)) e), rest)
    else fail .valueExpected start

def words : List (List Char × Value) :=
  [("null".toList, .null), ("true".toList, .bool true), ("false".toList, .bool false),
   ("NaN".toList, .nan .json), ("Infinity".toList, .float (.infinite false)),
   ("-Infinity".toList, .float (.infinite true))]

def readScalar (cs : List Char) : Except Fault (Value × List Char) :=
  match words.find? fun (w, _) => w.isPrefixOf cs with
  | some (w, v) => .ok (v, cs.drop w.length)
  | none =>
    match cs with
    | '-' :: rest => readNumber true cs rest
    | _ => readNumber false cs cs

mutual

/-- Reads one value; the fuel bounds the nesting and the number of items, and the length of the text
is always enough. -/
def readValue : Nat → List Char → Except Fault (Value × List Char)
  | 0, cs => fail .valueExpected cs
  | fuel + 1, cs =>
    match cs with
    | '"' :: rest => do
      let (s, rest) ← readString cs fuel [] rest
      return (.text s, rest)
    | '[' :: rest =>
      match skipBlanks rest with
      | ']' :: rest => .ok (.list [], rest)
      | rest => do
        let (xs, rest) ← readItems fuel rest
        return (.list xs, rest)
    | '\x7b' :: rest =>
      match skipBlanks rest with
      | '\x7d' :: rest => .ok (.map [], rest)
      | rest => do
        let (es, rest) ← readEntries fuel rest
        return (.mapOf es, rest)
    | _ => readScalar cs

def readItems : Nat → List Char → Except Fault (List Value × List Char)
  | 0, cs => fail .valueExpected cs
  | fuel + 1, cs => do
    let (x, rest) ← readValue fuel cs
    match skipBlanks rest with
    | ']' :: rest => return ([x], rest)
    | ',' :: rest =>
      let (xs, rest) ← readItems fuel (skipBlanks rest)
      return (x :: xs, rest)
    | rest => fail .commaExpected rest

def readEntries : Nat → List Char → Except Fault (List (Value × Value) × List Char)
  | 0, cs => fail .nameExpected cs
  | fuel + 1, cs =>
    match cs with
    | '"' :: rest => do
      let (k, rest) ← readString cs fuel [] rest
      match skipBlanks rest with
      | ':' :: rest =>
        let (v, rest) ← readValue fuel (skipBlanks rest)
        match skipBlanks rest with
        | '\x7d' :: rest => return ([(.text k, v)], rest)
        | ',' :: rest =>
          let (es, rest) ← readEntries fuel (skipBlanks rest)
          return ((.text k, v) :: es, rest)
        | rest => fail .commaExpected rest
      | rest => fail .colonExpected rest
    | _ => fail .nameExpected cs

end

def readChars (cs : List Char) : Except Fault Value :=
  match cs with
  | '\ufeff' :: _ => fail .byteOrderMark cs
  | _ => do
    let (v, rest) ← readValue (2 * cs.length + 2) (skipBlanks cs)
    let rest := skipBlanks rest
    if rest.isEmpty then return v else fail .extraData rest

def read (s : String) : Except Fault Value :=
  readChars s.toList

def place (cs left : List Char) : Nat × Nat × Nat :=
  let before := cs.take (cs.length - left.length)
  let line := before.count '\n' + 1
  let column := (before.reverse.takeWhile (· != '\n')).length + 1
  (line, column, before.length)

def describe (s : String) (cause : Cause) (left : List Char) : String :=
  let (line, column, offset) := place s.toList left
  s!"{cause.message}: line {line} column {column} (char {offset})"

end FilterTree.Json
