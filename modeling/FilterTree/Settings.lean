import FilterTree.Encoding
import FilterTree.Path

/-! The settings of the program, and how their fields are read. Reading goes on after a fault, so
that all of them are found. -/

namespace FilterTree

structure Settings where
  debug : Bool
  /-- The format in which conditions are written. -/
  encoding : Format
  /-- Hooks by purpose, as references or as mappings of a reference and parameters. -/
  hooks : List (Value × Linked)
  /-- Where the settings were looked for. -/
  path : Path

namespace Settings

def fileName : String := "condbuilder.yaml"

def default : Settings :=
  ⟨false, .json, [], Path.ofText fileName⟩

def switch? (s : String) : Option Bool :=
  let word := String.ofList (s.toList.map Char.toLower)
  if ["1", "t", "y", "on", "yes", "true"].contains word then some true
  else if ["0", "f", "n", "no", "off", "false"].contains word then some false
  else none

def switchOf (s : String) : Checked Bool :=
  match switch? s with
  | some b => .ok b
  | none => Checked.fault .unreadableBool

def fitsWord (n : Int) : Bool :=
  Int64.minValue.toInt ≤ n && n ≤ Int64.maxValue.toInt

def switchOfInt (n : Int) : Checked Bool :=
  if n = 0 then .ok false
  else if n = 1 then .ok true
  else if fitsWord n then Checked.fault .unreadableBool
  else Checked.fault .notBool

def readSwitch (v : Value) : Checked Bool :=
  match v with
  | .bool b => .ok b
  | .int n => switchOfInt n
  | .float x =>
    match x.toRatio? with
    | some (n, d) =>
      if n % d = 0 ∧ n ≠ Int64.minValue.toInt * d then switchOfInt (n / d)
      else Checked.fault .notBool
    | none => Checked.fault .notBool
  | .bytes bs =>
    match String.fromUTF8? ⟨bs.toArray⟩ with
    | some s => switchOf s
    | none => Checked.fault .unreadableBool
  | v =>
    match v.text? with
    | some s => switchOf s
    | none => Checked.fault .notBool

def readFormat (v : Value) : Checked Format :=
  match v with
  | .text s =>
    match Format.ofName? s with
    | some f => .ok f
    | none => Checked.fault (.notLiteral "'json' or 'yaml'")
  | _ => Checked.fault (.notLiteral "'json' or 'yaml'")

def readPath (v : Value) : Checked Path :=
  match v.text? with
  | some s => .ok (Path.ofText s)
  | none => Checked.fault .notPath

def stepTo (key : Value) : PathStep :=
  match key with
  | .bool b => .index (cond b 1 0)
  | .int n => if fitsWord n then .index n else .field key.display
  | k =>
    match k.text? with
    | some s => .field s
    | none => .field k.display

def readKey (key : Value) : Checked String :=
  (key.asText.within (.field "[key]")).within (stepTo key)

def readEntries (read : Value → Checked Value) :
    List (Value × Value) → Checked (List (String × Value))
  | [] => .ok []
  | (k, v) :: rest =>
    (Checked.both (Checked.both (readKey k) ((read v).within (stepTo k)))
      (readEntries read rest)).map fun ((key, value), others) => (key, value) :: others

def tableOf (entries : List (String × Value)) : List (Value × Value) :=
  entries.foldl (fun es (k, v) => Value.insertEntry es (.text k) v) []

def readTable (read : Value → Checked Value) (v : Value) : Checked (List (Value × Value)) :=
  match v with
  | .map es => (readEntries read es).map tableOf
  | _ => Checked.fault .notMapping

/-- A hook's entry: a reference, or a mapping with string keys. What is neither is both faults. -/
def readHook (v : Value) : Checked Value :=
  match v.asText with
  | .ok s => .ok (.text s)
  | .error faults =>
    match readTable .ok v with
    | .ok es => .ok (.map es)
    | .error more =>
      .error (faults.map (·.within (.field "str")) ++ more.map (·.within (.field "dict[str,any]")))

def readField {α : Type} (fields : List (Value × Value)) (name : String) (default : α)
    (read : Value → Checked α) : Checked α :=
  match Value.field? fields name with
  | some v => (read v).within (.field name)
  | none => .ok default

def ofFields (fields : List (Value × Value)) : Checked Settings :=
  (Checked.both
    (Checked.both (readField fields "debug" default.debug readSwitch)
      (readField fields "encoding" default.encoding readFormat))
    (Checked.both (readField fields "hooks" [] (readTable readHook))
      (readField fields "config_path" default.path readPath))).map
    fun ((debug, encoding), hooks, path) =>
      ⟨debug, encoding, hooks.map fun (k, v) => (k, .ofValue v), path⟩

end Settings

end FilterTree
