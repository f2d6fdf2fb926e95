import FilterTree.Calendar

/-! Reading dates and moments by the international standard. A date is given by month and day or by
week and day of the week, a time by two digits a part; separators stand between all parts or between
none. -/

namespace FilterTree

def takeDigits? (n : Nat) (cs : List Char) : Option (Nat × List Char) :=
  let ds := cs.take n
  if ds.length = n && ds.all Char.isDigit then
    some (ds.foldl (fun k c => 10 * k + (c.toNat - '0'.toNat)) 0, cs.drop n)
  else none

def expect? (c : Char) : List Char → Option (List Char)
  | d :: rest => if c = d then some rest else none
  | [] => none

namespace Date

def ofDay (year : Nat) : (months : List Nat) → (day : Nat) → Date
  | [], day => ⟨year + 1, 1, day⟩
  | m :: rest, day =>
    if day ≤ daysInMonth year m then ⟨year, m, day⟩ else ofDay year rest (day - daysInMonth year m)

/-- The date of a day of a week. The first week of a year is the one that holds its first Thursday,
so it may begin in the year before and the last one may end in the year after. -/
def ofWeek? (year week day : Nat) : Option Date :=
  let weekday := (ordinal ⟨year, 1, 1⟩ - 1) % 7
  let weeks := if weekday = 3 || (weekday = 2 && isLeap year) then 53 else 52
  if year = 0 || week = 0 || day = 0 || decide (weeks < week ∨ 7 < day) then none
  else
    -- Counted from the fourth day before the year, the first week begins on a day above zero.
    let n := (if 3 < weekday then 12 else 5) - weekday + 7 * (week - 1) + (day - 1)
    some (if n ≤ 4 then ⟨year - 1, 12, 27 + n⟩ else ofDay year (List.range' 1 12) (n - 4))

def ofChars? (cs : List Char) : Option Date := do
  let (year, cs) ← takeDigits? 4 cs
  let separated := cs.head? == some '-'
  let apart (cs : List Char) : Option (List Char) := if separated then expect? '-' cs else some cs
  let d ← match ← apart cs with
    | 'W' :: cs => do
      let (week, cs) ← takeDigits? 2 cs
      if cs.isEmpty then ofWeek? year week 1
      else
        let (day, _) ← takeDigits? 1 (← apart cs)
        ofWeek? year week day
    | cs => do
      let (month, cs) ← takeDigits? 2 cs
      let (day, cs) ← takeDigits? 2 (← apart cs)
      if cs.isEmpty then some ⟨year, month, day⟩ else none
  if d.isValid then some d else none

def ofIso? (s : String) : Option Date :=
  if [7, 8, 10].contains s.length then ofChars? s.toList else none

/-- How many characters of a text are its date when a time may follow. A week without a day takes
the hyphen after it for the mark of a time if digits follow for one. -/
def span (cs : List Char) : Nat :=
  let isDigitAt (n : Nat) : Bool := (cs[n]?).any Char.isDigit
  let isHyphenAt (n : Nat) : Bool := cs[n]? == some '-'
  if cs.length = 7 then 7
  else if isHyphenAt 4 then
    if cs[5]? == some 'W' && (!isHyphenAt 8 || isDigitAt 10) then 8 else 10
  else if cs[4]? == some 'W' then
    let digits := ((cs.drop 7).takeWhile Char.isDigit).length
    if digits < 2 then 7 + digits else if digits % 2 = 1 then 7 else 8
  else 8

end Date

structure Clock where
  hour : Nat
  minute : Nat
  second : Nat
  micro : Nat

namespace Clock

def parts? :
    (left : Nat) → (colons : Option Bool) → List Char → Option (List Nat × List Char × Bool)
  | 0, _, cs => some ([], cs, false)
  | left + 1, colons, cs => do
    let (n, cs) ← takeDigits? 2 cs
    match cs with
    | [] => some ([n], [], false)
    | [_] => some ([n], [], true)
    | c :: rest =>
      let colons := colons.getD (c == ':')
      let more (cs : List Char) := (parts? left (some colons) cs).map fun (ns, r) => (n :: ns, r)
      if colons && c == ':' then more rest
      else if c == '.' || c == ',' then some ([n], rest, false)
      else if colons then none
      else more cs

def fraction? (cs : List Char) : Option (Nat × Bool) := do
  let n := min 6 cs.length
  let (micro, rest) ← takeDigits? n cs
  return (micro * Nat.pow 10 (6 - n), !rest.all Char.isDigit)

def read? (cs : List Char) : Option (Clock × Bool) := do
  let (ns, rest, excess) ← parts? 3 none cs
  let (micro, junk) ← if rest.isEmpty then some (0, false) else fraction? rest
  return (⟨ns.getD 0 0, ns.getD 1 0, ns.getD 2 0, micro⟩, excess || junk)

end Clock

namespace Moment

def offset? : List Char → Option Int
  | ['Z'] => some 0
  | sign :: cs => do
    let (c, excess) ← Clock.read? cs
    let seconds := c.hour * 3600 + c.minute * 60 + c.second
    let n : Int := if seconds = 0 then 0 else ((seconds * 1000000 + c.micro : Nat) : Int)
    if sign == 'Z' || excess then none else some (if sign == '-' then -n else n)
  | [] => none

/-- Reads a moment: a date, which alone is midnight, any character, a time and perhaps an offset.
What is left over between a time and its offset does not count. -/
def ofIso? (s : String) : Option Moment := do
  let cs := s.toList
  let date ← Date.ofChars? (cs.take (Date.span cs))
  let rest := cs.drop (Date.span cs)
  let isMark (c : Char) : Bool := c == '+' || c == '-' || c == 'Z'
  let t ← match rest with
    | [] => some (⟨date, 0, 0, 0, 0, none⟩ : Moment)
    | _ :: time => do
      let (c, excess) ← Clock.read? (time.takeWhile (!isMark ·))
      match time.dropWhile (!isMark ·) with
      | [] => if excess then none else some ⟨date, c.hour, c.minute, c.second, c.micro, none⟩
      | mark => some ⟨date, c.hour, c.minute, c.second, c.micro, some (← offset? mark)⟩
  if t.isValid then some t else none

end Moment

end FilterTree
