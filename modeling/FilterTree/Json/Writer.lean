import FilterTree.Fault

/-! Compact JSON text: no blanks, characters beyond ASCII as they are. Sequences become arrays and
mappings objects whose keys are scalars written as text; byte strings, dates and sets have no
form. -/

namespace FilterTree.Json

def escapeChar (c : Char) : List Char :=
  if c = '"' then ['\\', '"']
  else if c = '\\' then ['\\', '\\']
  else if c = '\n' then ['\\', 'n']
  else if c = '\r' then ['\\', 'r']
  else if c = '\t' then ['\\', 't']
  else if c.toNat = 8 then ['\\', 'b']
  else if c.toNat = 12 then ['\\', 'f']
  else if c.toNat < 0x20 then '\\' :: 'u' :: (hexText 4 c.toNat).toList
  else [c]

def writeString (s : String) : String :=
  String.ofList ('"' :: s.toList.flatMap escapeChar ++ ['"'])

def writeDouble : Double → String
  | .infinite s => if s then "-Infinity" else "Infinity"
  | x => x.text

def writeInt (n : Int) : Except FilterTree.Fault String :=
  if (Value.int n).isLegible then .ok (toString n) else .error .longInteger

def unfit (what : String) : Except FilterTree.Fault String :=
  .error (.other .type what)

def keyText : Value → Except FilterTree.Fault String
  | .text s => .ok s
  | .operator o => .ok o.name
  | .join j => .ok j.name
  | .null => .ok "null"
  | .bool b => .ok (if b then "true" else "false")
  | .int n => writeInt n
  | .float x => .ok (writeDouble x)
  | .nan _ => .ok "NaN"
  | k => unfit s!"keys must be str, int, float, bool or None, not {k.typeName}"

mutual

def write : Value → Except FilterTree.Fault String
  | .null => .ok "null"
  | .bool b => .ok (if b then "true" else "false")
  | .int n => writeInt n
  | .float x => .ok (writeDouble x)
  | .nan _ => .ok "NaN"
  | .text s => .ok (writeString s)
  | .operator o => .ok (writeString o.name)
  | .join j => .ok (writeString j.name)
  | .list xs | .tuple xs => do
    let items ← writeAll xs
    return "[" ++ ",".intercalate items ++ "]"
  | .map es => do
    let items ← writeEntries es
    return "\x7b" ++ ",".intercalate items ++ "\x7d"
  | v => unfit s!"Object of type {v.typeName} is not JSON serializable"

def writeAll : List Value → Except FilterTree.Fault (List String)
  | [] => .ok []
  | x :: xs => do
    let first ← write x
    let rest ← writeAll xs
    return first :: rest

def writeEntries : List (Value × Value) → Except FilterTree.Fault (List String)
  | [] => .ok []
  | (k, v) :: es => do
    let key ← keyText k
    let value ← write v
    let rest ← writeEntries es
    return (writeString key ++ ":" ++ value) :: rest

end

end FilterTree.Json
