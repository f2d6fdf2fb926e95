/-! The tags of nodes, and the tag a scalar without one has by its spelling. -/

namespace FilterTree.Yaml

namespace Tags

def commonStem : String := "tag:yaml.org,2002:"

def common (name : String) : String := commonStem ++ name

def null : String := common "null"
def bool : String := common "bool"
def int : String := common "int"
def float : String := common "float"
def binary : String := common "binary"
def timestamp : String := common "timestamp"
def omap : String := common "omap"
def pairs : String := common "pairs"
def set : String := common "set"
def str : String := common "str"
def seq : String := common "seq"
def map : String := common "map"
def merge : String := common "merge"
def value : String := common "value"
def indicator : String := common "yaml"

def shorthand (tag : String) : String := "!!" ++ (tag.drop commonStem.length).toString

end Tags

namespace Spelling

def isNull (s : String) : Bool :=
  ["", "~", "null", "Null", "NULL"].contains s

def isBool (s : String) : Bool :=
  ["yes", "Yes", "YES", "no", "No", "NO", "true", "True", "TRUE", "false", "False", "FALSE",
    "on", "On", "ON", "off", "Off", "OFF"].contains s

def afterSign : List Char → List Char
  | '+' :: cs => cs
  | '-' :: cs => cs
  | cs => cs

def isDigitOrBar (c : Char) : Bool :=
  c.isDigit || c = '_'

def consistsOf (p : Char → Bool) (cs : List Char) : Bool :=
  !cs.isEmpty && cs.all p

def sixties? : Nat → List Char → Option (List Char)
  | 0, _ => none
  | fuel + 1, cs =>
    match cs with
    | ':' :: a :: b :: rest =>
      if '0' ≤ a ∧ a ≤ '5' ∧ b.isDigit then some ((sixties? fuel rest).getD rest)
      else if a.isDigit then some ((sixties? fuel (b :: rest)).getD (b :: rest))
      else none
    | [':', a] => if a.isDigit then some [] else none
    | _ => none

def isInt (cs : List Char) : Bool :=
  match afterSign cs with
  | '0' :: 'b' :: rest => consistsOf (fun c => c = '0' || c = '1' || c = '_') rest
  | '0' :: 'x' :: rest =>
    consistsOf (fun c => c.isDigit || ('a' ≤ c && c ≤ 'f') || ('A' ≤ c && c ≤ 'F') || c = '_') rest
  | '0' :: rest => rest.all fun c => ('0' ≤ c && c ≤ '7') || c = '_'
  | d :: rest =>
    d.isDigit &&
      let tail := rest.dropWhile isDigitOrBar
      tail.isEmpty || sixties? (tail.length + 1) tail == some []
  | [] => false

def isExponent : List Char → Bool
  | [] => true
  | e :: s :: ds => (e = 'e' || e = 'E') && (s = '+' || s = '-') && consistsOf Char.isDigit ds
  | _ => false

def isFloat (cs : List Char) : Bool :=
  let word := String.ofList cs
  let unsigned := afterSign cs
  [".nan", ".NaN", ".NAN"].contains word ||
  [".inf", ".Inf", ".INF"].contains (String.ofList unsigned) ||
  (match cs with
    | '.' :: d :: rest => d.isDigit && isExponent (rest.dropWhile isDigitOrBar)
    | _ => false) ||
  match unsigned with
  | d :: rest =>
    d.isDigit &&
      match rest.dropWhile isDigitOrBar with
      | '.' :: tail => isExponent (tail.dropWhile isDigitOrBar)
      | tail =>
        match sixties? (tail.length + 1) tail with
        | some ('.' :: tail) => tail.all isDigitOrBar
        | _ => false
  | [] => false

end Spelling

structure Stamp where
  year : List Char
  month : List Char
  day : List Char
  clock : Option (List Char × List Char × List Char)
  fraction : List Char
  /-- The sign with hours and minutes, or no sign for universal time. -/
  zone : Option (Option Char × List Char × List Char)

namespace Stamp

def digits? (least most : Nat) (cs : List Char) : Option (List Char × List Char) :=
  let ds := (cs.take most).takeWhile Char.isDigit
  if least ≤ ds.length then some (ds, cs.drop ds.length) else none

def after? (c : Char) : List Char → Option (List Char)
  | d :: rest => if c = d then some rest else none
  | [] => none

def skipBlanks (cs : List Char) : List Char :=
  cs.dropWhile fun c => c = ' ' || c = '\t'

def separator? (cs : List Char) : Option (List Char) :=
  match cs with
  | c :: rest => if c = 'T' ∨ c = 't' then some rest
    else if c = ' ' ∨ c = '\t' then some (skipBlanks rest) else none
  | [] => none

def zone? (cs : List Char) : Option (Option (Option Char × List Char × List Char)) :=
  match skipBlanks cs with
  | [] => if cs.isEmpty then some none else none
  | ['Z'] => some (some (none, [], []))
  | sign :: rest => do
    if sign ≠ '+' ∧ sign ≠ '-' then none
    else
      let (hours, rest) ← digits? 1 2 rest
      match rest with
      | [] => some (some (some sign, hours, []))
      | ':' :: rest =>
        let (minutes, rest) ← digits? 2 2 rest
        if rest.isEmpty then some (some (some sign, hours, minutes)) else none
      | _ => none

def ofChars? (cs : List Char) : Option Stamp := do
  let (year, cs) ← digits? 4 4 cs
  let cs ← after? '-' cs
  let (month, cs) ← digits? 1 2 cs
  let cs ← after? '-' cs
  let (day, cs) ← digits? 1 2 cs
  if cs.isEmpty then return ⟨year, month, day, none, [], none⟩
  else
    let cs ← separator? cs
    let (hour, cs) ← digits? 1 2 cs
    let cs ← after? ':' cs
    let (minute, cs) ← digits? 2 2 cs
    let cs ← after? ':' cs
    let (second, cs) ← digits? 2 2 cs
    let (fraction, cs) := match cs with
      | '.' :: more => (more.takeWhile Char.isDigit, more.dropWhile Char.isDigit)
      | more => ([], more)
    let zone ← zone? cs
    return ⟨year, month, day, some (hour, minute, second), fraction, zone⟩

/-- Whether a scalar without a tag is one: a date alone needs two digits for month and day. -/
def isSpelledOut (t : Stamp) : Bool :=
  t.clock.isSome || (t.month.length = 2 && t.day.length = 2)

end Stamp

def withoutFinalBreak (cs : List Char) : List Char :=
  match cs.reverse with
  | '\n' :: rest => rest.reverse
  | _ => cs

def tagOfSpelling (s : String) : String :=
  let cs := withoutFinalBreak s.toList
  let word := String.ofList cs
  if Spelling.isBool word then Tags.bool
  else if Spelling.isFloat cs then Tags.float
  else if Spelling.isInt cs then Tags.int
  else if Spelling.isNull word && (!word.isEmpty || s.isEmpty) then Tags.null
  else if word = "<<" then Tags.merge
  else if word = "=" then Tags.value
  else if ["!", "&", "*"].contains word then Tags.indicator
  else match Stamp.ofChars? cs with
    | some t => if t.isSpelledOut then Tags.timestamp else Tags.str
    | none => Tags.str

end FilterTree.Yaml
