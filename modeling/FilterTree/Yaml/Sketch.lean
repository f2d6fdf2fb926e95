import FilterTree.Yaml.Style
import FilterTree.Number.Decimal
import FilterTree.Fault

/-! Values laid out for writing. What stands in several places of a document, as one and the same
thing and not as its equal, is laid out in each of them under one name. -/

namespace FilterTree.Yaml

/-- What tells a thing that may stand in several places from its equals. `read` is a date from an
earlier document, in the copy that belongs to one slot. `kept` is a tuple that copying does not
renew, since nothing in it can change; the trail leads to it inside the leaf. -/
inductive Identity where
  | read (path : List Nat) (serial : Nat)
  | kept (leaf : Nat) (trail : List Nat)
  deriving DecidableEq, Repr

inductive Sketch where
  | scalar (s : Scalar) (identity : Option Identity)
  | sequence (items : List Sketch) (identity : Option Identity)
  | mapping (entries : List (Sketch × Sketch)) (identity : Option Identity)

namespace Sketch

def identity : Sketch → Option Identity
  | .scalar _ i | .sequence _ i | .mapping _ i => i

def base64Letter (n : Nat) : Char :=
  if n < 26 then Char.ofNat ('A'.toNat + n)
  else if n < 52 then Char.ofNat ('a'.toNat + n - 26)
  else if n < 62 then Char.ofNat ('0'.toNat + n - 52)
  else if n = 62 then '+'
  else '/'

def base64 : List UInt8 → List Char
  | [] => []
  | [a] =>
    let n := a.toNat * 16
    [base64Letter (n / 64), base64Letter (n % 64), '=', '=']
  | [a, b] =>
    let n := (a.toNat * 256 + b.toNat) * 4
    [base64Letter (n / 4096), base64Letter (n / 64 % 64), base64Letter (n % 64), '=']
  | a :: b :: c :: rest =>
    let n := (a.toNat * 256 + b.toNat) * 256 + c.toNat
    base64Letter (n / 262144) :: base64Letter (n / 4096 % 64) :: base64Letter (n / 64 % 64) ::
      base64Letter (n % 64) :: base64 rest

def base64Lines : Nat → List UInt8 → String
  | 0, _ => ""
  | fuel + 1, bs =>
    if bs.isEmpty then ""
    else String.ofList (base64 (bs.take 57)) ++ "\n" ++ base64Lines fuel (bs.drop 57)

def floatText (x : Double) : String :=
  match x with
  | .infinite s => if s then "-.inf" else ".inf"
  | x =>
    let cs := x.text.toList
    if cs.contains '.' then x.text
    else String.ofList (cs.flatMap fun c => if c = 'e' then ['.', '0', 'e'] else [c])

def ofTagged (tag text : String) : Sketch :=
  .scalar ⟨tag, text, false⟩ none

def ofText (s : String) : Sketch :=
  ofTagged Tags.str s

def ofScalar (path : List Nat) : Value → Except Fault Sketch
  | .null => .ok (ofTagged Tags.null "null")
  | .bool b => .ok (ofTagged Tags.bool (if b then "true" else "false"))
  | .int n =>
    if (Value.int n).isLegible then .ok (ofTagged Tags.int (toString n)) else .error .longInteger
  | .float x => .ok (ofTagged Tags.float (floatText x))
  | .nan _ => .ok (ofTagged Tags.float ".nan")
  | .text s => .ok (ofText s)
  | .bytes bs => .ok (.scalar ⟨Tags.binary, base64Lines (bs.length + 1) bs, true⟩ none)
  | .date d serial => .ok (.scalar ⟨Tags.timestamp, d.iso, false⟩ (serial.map (.read path)))
  | .moment t serial => .ok (.scalar ⟨Tags.timestamp, t.iso " ", false⟩ (serial.map (.read path)))
  | _ => .error (.other .unrepresentable "cannot represent an object")

mutual

def isConstant : Value → Bool
  | .tuple xs => areConstant xs
  | .date _ _ | .moment _ _ => false
  | _ => true

def areConstant : List Value → Bool
  | [] => true
  | x :: xs => isConstant x && areConstant xs

end

/-- Whether copying does not renew a tuple of the items. The empty one is written out every time. -/
def isKept (xs : List Value) : Bool :=
  !xs.isEmpty && areConstant xs

mutual

/-- The layout of a value in a leaf, for the slot at the end of `path`; `trail` tells the parts of
the leaf apart. Sets, buffers and members of vocabularies have none; the first such part counts. -/
def ofValue (leaf : Nat) (path trail : List Nat) : Value → Except Fault Sketch
  | .list xs => (ofValues leaf path trail 0 xs).map (.sequence · none)
  | .tuple xs =>
    let identity := if isKept xs then some (Identity.kept leaf trail) else none
    (ofValues leaf path trail 0 xs).map (.sequence · identity)
  | .map es => (ofEntries leaf path trail 0 es).map (.mapping · none)
  | v => ofScalar path v

def ofValues (leaf : Nat) (path trail : List Nat) (index : Nat) :
    List Value → Except Fault (List Sketch)
  | [] => .ok []
  | x :: xs => do
    let first ← ofValue leaf path (index :: trail) x
    let rest ← ofValues leaf path trail (index + 1) xs
    return first :: rest

def ofEntries (leaf : Nat) (path trail : List Nat) (index : Nat) :
    List (Value × Value) → Except Fault (List (Sketch × Sketch))
  | [] => .ok []
  | (k, v) :: es => do
    let key ← ofValue leaf path (0 :: index :: trail) k
    let value ← ofValue leaf path (1 :: index :: trail) v
    let rest ← ofEntries leaf path trail (index + 1) es
    return (key, value) :: rest

end

structure Survey where
  met : List Identity
  again : List Identity

namespace Survey

def repeated (s : Survey) (i : Identity) : Survey :=
  if s.again.contains i then s else { s with again := s.again ++ [i] }

end Survey

mutual

def survey : Sketch → Survey → Survey
  | .scalar _ identity, s => match identity with
    | none => s
    | some i => if s.met.contains i then s.repeated i else { s with met := i :: s.met }
  | .sequence items identity, s => match identity with
    | none => surveyItems items s
    | some i =>
      if s.met.contains i then s.repeated i else surveyItems items { s with met := i :: s.met }
  | .mapping entries identity, s => match identity with
    | none => surveyEntries entries s
    | some i =>
      if s.met.contains i then s.repeated i else surveyEntries entries { s with met := i :: s.met }

def surveyItems : List Sketch → Survey → Survey
  | [], s => s
  | x :: xs, s => surveyItems xs (survey x s)

def surveyEntries : List (Sketch × Sketch) → Survey → Survey
  | [], s => s
  | (k, v) :: es, s => surveyEntries es (survey v (survey k s))

end

end Sketch

end FilterTree.Yaml
