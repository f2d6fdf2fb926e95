import FilterTree.Vocabulary
import FilterTree.Calendar
import FilterTree.Number.Double

/-! The values a comparison may hold: scalars, dates, byte strings, sequences, sets and mappings
with keys of any kind, nested to any depth. -/

namespace FilterTree

/-- Where a not-a-number was made. Those read from one text format are one and the same object and
so equal to each other; one made elsewhere is equal to nothing. -/
inductive NanOrigin where
  | fresh | json | yaml
  deriving DecidableEq, Repr

/-- A date read from a document carries the serial number of its node there, by which a later writer
knows the same date from an equal one; a date from elsewhere has none. Mappings and sets keep their
entries in order; equal keys occur once. A collection that holds itself has a loop there, with as
much of its whole as is of use. An object that is no data may stand for a value, with no more than
its type and its record. -/
inductive Value where
  | null
  | bool (b : Bool)
  | int (n : Int)
  | float (x : Double)
  | nan (origin : NanOrigin)
  | text (s : String)
  | operator (o : Operator)
  | join (j : Join)
  | bytes (bs : List UInt8)
  | buffer (bs : List UInt8)
  | date (d : Date) (serial : Option Nat)
  | moment (t : Moment) (serial : Option Nat)
  | list (xs : List Value)
  | tuple (xs : List Value)
  | set (xs : List Value)
  | frozenset (xs : List Value)
  | map (entries : List (Value × Value))
  | loop (whole : Value)
  | foreign (type : String) (record : Value)
  deriving Repr, Inhabited

namespace Value

def typeName : Value → String
  | .null => "NoneType"
  | .bool _ => "bool"
  | .int _ => "int"
  | .float _ | .nan _ => "float"
  | .text _ => "str"
  | .operator _ => "Operator"
  | .join _ => "JoinOperator"
  | .bytes _ => "bytes"
  | .buffer _ => "bytearray"
  | .date _ _ => "date"
  | .moment _ _ => "datetime"
  | .list _ => "list"
  | .tuple _ => "tuple"
  | .set _ => "set"
  | .frozenset _ => "frozenset"
  | .map _ => "dict"
  | .loop whole => whole.typeName
  | .foreign type _ => type

def text? : Value → Option String
  | .text s => some s
  | .operator o => some o.name
  | .join j => some j.name
  | _ => none

def truthy : Value → Bool
  | .null => false
  | .bool b => b
  | .int n => n != 0
  | .float x => !x.isZero
  | .text s => !s.isEmpty
  | .bytes bs | .buffer bs => !bs.isEmpty
  | .list xs | .tuple xs | .set xs | .frozenset xs => !xs.isEmpty
  | .map es => !es.isEmpty
  | _ => true

def sameNumber? : Value → Value → Option Bool
  | .bool a, .bool b => some (a == b)
  | .bool a, .int b => some (cond a 1 0 == b)
  | .bool a, .float y => some (y.sameAsInt (cond a 1 0))
  | .int a, .bool b => some (a == cond b 1 0)
  | .int a, .int b => some (a == b)
  | .int a, .float y => some (y.sameAsInt a)
  | .float x, .bool b => some (x.sameAsInt (cond b 1 0))
  | .float x, .int b => some (x.sameAsInt b)
  | .float x, .float y => some (x.same y)
  | _, _ => none

/-- Equality of values without parts. As keys, a member of a vocabulary and its name are two
keys. -/
def sameScalar (asKey : Bool) : Value → Value → Bool
  | .null, .null => true
  | .nan a, .nan b => a == b && a != .fresh
  | .bytes a, .bytes b | .bytes a, .buffer b | .buffer a, .bytes b | .buffer a, .buffer b => a == b
  | .date a _, .date b _ => a == b
  | .moment a _, .moment b _ => a.same b
  | .text a, .text b => a == b
  | .operator a, .operator b => a == b
  | .join a, .join b => a == b
  | a, b =>
    match sameNumber? a b with
    | some r => r
    | none =>
      match a.text?, b.text? with
      | some s, some t => !asKey && s == t
      | _, _ => false

mutual

def same (asKey : Bool) : Value → Value → Bool
  | .list xs, b => match b with
    | .list ys => sameAll asKey xs ys
    | _ => false
  | .tuple xs, b => match b with
    | .tuple ys => sameAll asKey xs ys
    | _ => false
  | .set xs, b | .frozenset xs, b => match b with
    | .set ys | .frozenset ys => xs.length == ys.length && allAmong xs ys
    | _ => false
  | .map es, b => match b with
    | .map fs => es.length == fs.length && entriesAmong es fs
    | _ => false
  | .foreign type record, b => match b with
    | .foreign other record' => type == other && same false record record'
    | _ => false
  | a, b => sameScalar asKey a b

def sameAll (asKey : Bool) : List Value → List Value → Bool
  | [], ys => ys.isEmpty
  | x :: xs, ys => match ys with
    | y :: ys => same asKey x y && sameAll asKey xs ys
    | [] => false

def allAmong : List Value → List Value → Bool
  | [], _ => true
  | x :: xs, ys => ys.any (fun y => same true x y) && allAmong xs ys

def entriesAmong : List (Value × Value) → List (Value × Value) → Bool
  | [], _ => true
  | (k, v) :: es, fs =>
    fs.any (fun (k', v') => same true k k' && same false v v') && entriesAmong es fs

end

/-- Puts a value under a key: an equal key keeps its place and its own form. -/
def insertEntry {α : Type} (entries : List (Value × α)) (k : Value) (v : α) : List (Value × α) :=
  if entries.any fun e => e.1.same true k then
    entries.map fun e => if e.1.same true k then (e.1, v) else e
  else entries ++ [(k, v)]

def mapOf (entries : List (Value × Value)) : Value :=
  .map (entries.foldl (fun es (k, v) => insertEntry es k v) [])

def lookup? {α : Type} (entries : List (Value × α)) (k : Value) : Option α :=
  (entries.find? fun e => e.1.same true k).map (·.2)

def field? {α : Type} (entries : List (Value × α)) (name : String) : Option α :=
  lookup? entries (.text name)

def items? (v : Value) : Option (List Value) :=
  match v with
  | .bytes bs | .buffer bs => some (bs.map fun b => .int b.toNat)
  | .list xs | .tuple xs | .set xs | .frozenset xs => some xs
  | .map es => some (es.map (·.1))
  | v => v.text?.map fun s => s.toList.map fun c => .text (String.singleton c)

def distinct (xs : List Value) : List Value :=
  xs.foldl (fun seen x => if seen.any (·.same true x) then seen else seen ++ [x]) []

def isKey : Value → Bool
  | .list _ | .set _ | .map _ | .loop _ | .foreign _ _ | .buffer _ => false
  | .tuple xs => keys xs
  | _ => true
where
  keys : List Value → Bool
    | [] => true
    | x :: xs => isKey x && keys xs

mutual

def isEndless : Value → Bool
  | .loop _ => true
  | .list xs | .tuple xs | .set xs | .frozenset xs => anyEndless xs
  | .map es => anyEntryEndless es
  | .foreign _ record => isEndless record
  | _ => false

def anyEndless : List Value → Bool
  | [] => false
  | x :: xs => isEndless x || anyEndless xs

def anyEntryEndless : List (Value × Value) → Bool
  | [] => false
  | (k, v) :: es => isEndless k || isEndless v || anyEntryEndless es

end

/-- An integer is written only if it has at most this many digits. -/
def digitLimit : Nat := 4300

def tooLong : Nat := Nat.pow 10 digitLimit

mutual

def isLegible : Value → Bool
  | .int n => n.natAbs < tooLong
  | .list xs | .tuple xs | .set xs | .frozenset xs => areLegible xs
  | .map es => entriesLegible es
  | _ => true

def areLegible : List Value → Bool
  | [] => true
  | x :: xs => isLegible x && areLegible xs

def entriesLegible : List (Value × Value) → Bool
  | [] => true
  | (k, v) :: es => isLegible k && isLegible v && entriesLegible es

end

end Value

end FilterTree
