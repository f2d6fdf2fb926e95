/-! Calendar dates and moments in time, as they stand in values: a proleptic Gregorian date, and a
date with a time of day and perhaps an offset from universal time. -/

namespace FilterTree

def padded (width n : Nat) : String :=
  let digits := toString n
  String.ofList (List.replicate (width - digits.length) '0') ++ digits

structure Date where
  year : Nat
  month : Nat
  day : Nat
  deriving DecidableEq, Repr

namespace Date

def isLeap (year : Nat) : Bool :=
  year % 4 = 0 && (year % 100 ≠ 0 || year % 400 = 0)

def daysInMonth (year month : Nat) : Nat :=
  if month = 2 then (if isLeap year then 29 else 28)
  else if month = 4 ∨ month = 6 ∨ month = 9 ∨ month = 11 then 30
  else 31

def isValid (d : Date) : Bool :=
  decide (1 ≤ d.year ∧ d.year ≤ 9999 ∧ 1 ≤ d.month ∧ d.month ≤ 12 ∧ 1 ≤ d.day ∧
    d.day ≤ daysInMonth d.year d.month)

def iso (d : Date) : String :=
  padded 4 d.year ++ "-" ++ padded 2 d.month ++ "-" ++ padded 2 d.day

def ordinal (d : Date) : Nat :=
  let y := d.year - 1
  let before := (List.range (d.month - 1)).foldl (fun n m => n + daysInMonth d.year (m + 1)) 0
  y * 365 + y / 4 - y / 100 + y / 400 + before + d.day

end Date

/-- A moment; `offset` counts microseconds east of universal time. -/
structure Moment where
  date : Date
  hour : Nat
  minute : Nat
  second : Nat
  micro : Nat
  offset : Option Int
  deriving DecidableEq, Repr

namespace Moment

def isValid (t : Moment) : Bool :=
  t.date.isValid && decide (t.hour < 24 ∧ t.minute < 60 ∧ t.second < 60 ∧ t.micro < 1000000) &&
    match t.offset with
    | none => true
    | some o => decide (o.natAbs < 86400000000)

def offsetText (o : Int) : String :=
  let n := o.natAbs / 1000000
  let micro := o.natAbs % 1000000
  let fraction := if micro = 0 then "" else "." ++ padded 6 micro
  let seconds := if n % 60 = 0 ∧ micro = 0 then "" else ":" ++ padded 2 (n % 60) ++ fraction
  (if o < 0 then "-" else "+") ++ padded 2 (n / 3600) ++ ":" ++ padded 2 (n / 60 % 60) ++ seconds

def iso (between : String) (t : Moment) : String :=
  let fraction := if t.micro = 0 then "" else "." ++ padded 6 t.micro
  t.date.iso ++ between ++ padded 2 t.hour ++ ":" ++ padded 2 t.minute ++ ":" ++
    padded 2 t.second ++ fraction ++ (t.offset.map offsetText).getD ""

def micros (t : Moment) : Int :=
  let seconds := t.date.ordinal * 86400 + t.hour * 3600 + t.minute * 60 + t.second
  ((seconds * 1000000 + t.micro : Nat) : Int) - t.offset.getD 0

/-- Two moments are the same when both lie at one point of universal time, or agree in every field
and neither has an offset. -/
def same (a b : Moment) : Bool :=
  a.offset.isSome == b.offset.isSome && a.micros == b.micros

end Moment

end FilterTree
