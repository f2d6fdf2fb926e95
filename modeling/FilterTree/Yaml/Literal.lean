import FilterTree.Yaml.Tag
import FilterTree.Yaml.Cursor
import FilterTree.Number.Decimal
import FilterTree.Text.Digits
import FilterTree.Text.Lowercase

/-! What a text stands for under a tag for scalars. -/

namespace FilterTree.Yaml

def digitOf? (base : Nat) (c : Char) : Option Nat :=
  match hexDigit? c with
  | some d => if d < base then some d else none
  | none => none

def baseMark (base : Nat) : List Char :=
  if base = 2 then ['b', 'B'] else if base = 8 then ['o', 'O']
  else if base = 16 then ['x', 'X'] else []

def wholeNumber? (base : Nat) (cs : List Char) : Option Int :=
  let cs := Numeral.plain cs
  let negative := cs.head? = some '-'
  let ds := Spelling.afterSign cs
  let ds := match ds with
    | '0' :: m :: rest => if (baseMark base).contains m then rest else ds
    | ds => ds
  if ds.isEmpty || (base = 10 && 4300 < ds.length) then none
  else (ds.mapM (digitOf? base)).map fun ds =>
    let n : Int := (ds.foldl (fun n d => base * n + d) 0 : Nat)
    if negative then -n else n

namespace Scalar

def parts (cs : List Char) : List (List Char) :=
  cs.splitOn ':'

def orValue {α : Type} (x : Option α) : Except Failure α :=
  match x with
  | some a => .ok a
  | none => .error (.other .value)

def signed (s : String) : Except Failure (Bool × List Char) :=
  match s.toList.filter (· ≠ '_') with
  | [] => .error (.other .index)
  | '-' :: cs => .ok (true, cs)
  | '+' :: cs => .ok (false, cs)
  | cs => .ok (false, cs)

def readInt (s : String) : Except Failure Value := do
  let (negative, cs) ← signed s
  let n : Int ← match cs with
    | [] => .error (.other .index)
    | ['0'] => .ok 0
    | '0' :: 'b' :: rest => orValue (wholeNumber? 2 rest)
    | '0' :: 'x' :: rest => orValue (wholeNumber? 16 rest)
    | '0' :: _ => orValue (wholeNumber? 8 cs)
    | cs => do
      let digits ← (parts cs).mapM fun part => orValue (wholeNumber? 10 part)
      pure (digits.foldl (fun n d => 60 * n + d) 0)
  return .int (if negative then -n else n)

def readDecimal (cs : List Char) : Except Failure Reading :=
  orValue (Reading.ofText? (String.ofList (Numeral.plain cs)))

/-- The sum of digits to the base sixty, the last one first and counting once; each product and each
sum is rounded. The weight of a digit must be within the range of doubles. -/
def sumOfSixties (digits : List Reading) : Except Failure Value := do
  let step (acc : Option Double × Nat) (d : Reading) : Except Failure (Option Double × Nat) :=
    match Double.ofNat? acc.2, d with
    | none, _ => .error (.other .overflow)
    | some weight, .number x => .ok (acc.1.bind (·.add? (x.scaleBy weight)), acc.2 * 60)
    | some _, .notNumber => .ok (none, acc.2 * 60)
  match (← digits.foldlM step (some (.zero false), 1)).1 with
  | some x => return .float x
  | none => return .nan .fresh

def negated (negative : Bool) : Value → Value
  | .float x => .float (if negative then x.neg else x)
  | v => v

def readFloat (s : String) : Except Failure Value := do
  let (negative, cs) ← signed (lowercase s)
  if cs = ".inf".toList then return .float (.infinite negative)
  else if cs = ".nan".toList then return .nan .yaml
  else
    let digits ← (parts cs).mapM readDecimal
    match digits with
    | [.number x] => return negated negative (.float x)
    | [.notNumber] => return .nan .fresh
    | digits => return negated negative (← sumOfSixties digits.reverse)

def readBool (s : String) : Except Failure Value :=
  let word := lowercase s
  if ["yes", "true", "on"].contains word then .ok (.bool true)
  else if ["no", "false", "off"].contains word then .ok (.bool false)
  else .error (.other .key)

def base64Digit? (c : Char) : Option Nat :=
  if 'A' ≤ c ∧ c ≤ 'Z' then some (c.toNat - 'A'.toNat)
  else if 'a' ≤ c ∧ c ≤ 'z' then some (c.toNat - 'a'.toNat + 26)
  else if c.isDigit then some (c.toNat - '0'.toNat + 52)
  else if c = '+' then some 62
  else if c = '/' then some 63
  else none

/-- Decodes groups of four digits. `held` are the digits of the group so far, `pads` the equals
signs since the last digit; enough of these end the text, and other characters do not count. -/
def base64 : List Nat → Nat → List Char → Option (List UInt8)
  | held, _, [] => if held.isEmpty then some [] else none
  | held, pads, c :: cs =>
    if c = '=' then
      if held.length ≥ 2 then
        if held.length + pads + 1 ≥ 4 then some [] else base64 held (pads + 1) cs
      else base64 held pads cs
    else
      match base64Digit? c with
      | none => base64 held pads cs
      | some d =>
        match held with
        | [] => base64 [d] 0 cs
        | [a] => (base64 [a, d] 0 cs).map (UInt8.ofNat (a * 4 + d / 16) :: ·)
        | [a, b] => (base64 [a, b, d] 0 cs).map (UInt8.ofNat (b % 16 * 16 + d / 4) :: ·)
        | _ :: _ :: b :: _ => (base64 [] 0 cs).map (UInt8.ofNat (b % 4 * 64 + d) :: ·)

def readBinary (s : String) : Except Failure Value :=
  if s.toList.all (·.toNat < 128) then
    match base64 [] 0 s.toList with
    | some bs => .ok (.bytes bs)
    | none => .error .invalid
  else .error .invalid

def micros (ds : List Char) : Nat :=
  if ds.isEmpty then 0 else digitsValue ((ds ++ List.replicate 6 '0').take 6)

def offsetOf : Option (Option Char × List Char × List Char) → Option Int
  | none => none
  | some (none, _, _) => some 0
  | some (some sign, hours, minutes) =>
    let n : Int := ((digitsValue hours * 3600 + digitsValue minutes * 60) * 1000000 : Nat)
    some (if sign = '-' then -n else n)

def readTimestamp (serial : Nat) (s : String) : Except Failure Value :=
  match Stamp.ofChars? (withoutFinalBreak s.toList) with
  | none => .error (.other .attribute)
  | some t =>
    let d : Date := ⟨digitsValue t.year, digitsValue t.month, digitsValue t.day⟩
    match t.clock with
    | none => if d.isValid then .ok (.date d (some serial)) else .error (.other .value)
    | some (hour, minute, second) =>
      let m : Moment := ⟨d, digitsValue hour, digitsValue minute, digitsValue second,
        micros t.fraction, offsetOf t.zone⟩
      if m.isValid then .ok (.moment m (some serial)) else .error (.other .value)

def tags : List String :=
  [Tags.str, Tags.null, Tags.bool, Tags.int, Tags.float, Tags.binary, Tags.timestamp]

def read (serial : Nat) (tag s : String) : Except Failure Value :=
  if tag = Tags.str then .ok (.text s)
  else if tag = Tags.null then .ok .null
  else if tag = Tags.bool then readBool s
  else if tag = Tags.int then readInt s
  else if tag = Tags.float then readFloat s
  else if tag = Tags.binary then readBinary s
  else if tag = Tags.timestamp then readTimestamp serial s
  else .error .invalid

end Scalar

end FilterTree.Yaml
