import FilterTree.Json.Reader
import FilterTree.Settings
import FilterTree.Text.Lowercase

/-! Settings as variables: how the variables are named, and how the fields of settings are read from
a table of variables. -/

namespace FilterTree

namespace Value

mutual

/-- One value laid over another: mappings on both sides are merged, everything else is covered. -/
def cover (upper lower : Value) : Value :=
  match upper with
  | .map us => match lower with
    | .map ls => .map (coverEntries us ls)
    | _ => .map us
  | v => v

def coverEntries (upper lower : List (Value × Value)) : List (Value × Value) :=
  match upper with
  | [] => lower
  | (k, v) :: rest =>
    let merged := match lookup? lower k with
      | some old => cover v old
      | none => v
    coverEntries rest (insertEntry lower k merged)

end

end Value

namespace Settings

structure Naming where
  /-- What the name of every variable starts with. -/
  start : String
  /-- Whether upper and lower case are told apart. -/
  isExact : Bool
  /-- Whether an empty variable is none. -/
  skipsEmpty : Bool
  /-- The word for null, if there is one. -/
  nullWord : Option String
  /-- What stands between the keys of a nested entry, if these have variables of their own. -/
  delimiter : String
  /-- The greatest number of keys that a name is cut into, if there is one. -/
  depth : Option Nat

namespace Naming

def ofGiven (given : List (Value × Value)) : Except Fault Naming :=
  let option (name : String) : Value := (Value.field? given name).getD .null
  let naming (start : String) : Naming :=
    { start
      isExact := (option "_case_sensitive").truthy
      skipsEmpty := (option "_env_ignore_empty").truthy
      nullWord := (option "_env_parse_none_str").text?
      delimiter := ((option "_env_nested_delimiter").text?).getD ""
      depth := match option "_env_nested_max_split" with
        | .int (.ofNat (n + 1)) => some (n + 1)
        | _ => none }
  match option "_env_prefix" with
  | .null => .ok (naming "CONDBUILDER_")
  | v =>
    match v.text? with
    | some start => .ok (naming start)
    | none => .error (.other .settings "")

def fold (n : Naming) (name : String) : String :=
  if n.isExact then name else lowercase name

/-- The variables by their names as far as these count. Of several spellings the one set last
counts. -/
def table (n : Naming) (each : List (String × Option String)) : List (Value × Value) :=
  let counting := each.filter fun v => !(n.skipsEmpty && v.2 = some "")
  counting.foldl (fun es (name, value) =>
    let key := Value.text (n.fold name)
    match value with
    | none => es.filter fun e => !e.1.same true key
    | some s => Value.insertEntry es key (if n.nullWord = some s then .null else .text s)) []

def nameOf (n : Naming) (name : String) : String :=
  n.fold (n.start ++ name)

def decoded (v : Value) : Value :=
  match v with
  | .text s =>
    match Json.read s with
    | .ok x => if s.isEmpty then v else x
    | .error _ => v
  | v => v

def keysOf (n : Naming) (name : String) : List String :=
  let keys := name.splitOn n.delimiter
  match n.depth with
  | some depth =>
    if depth < keys.length then
      keys.take (depth - 1) ++ [n.delimiter.intercalate (keys.drop (depth - 1))]
    else keys
  | none => keys

def nest (v : Value) : List String → List (Value × Value) → List (Value × Value)
  | [], es => es
  | [key], es => Value.insertEntry es (.text key) v
  | key :: keys, es =>
    match Value.field? es key with
    | none => Value.insertEntry es (.text key) (.map (nest v keys []))
    | some (.map inner) => Value.insertEntry es (.text key) (.map (nest v keys inner))
    | some _ => es

def nested (n : Naming) (vs : List (Value × Value)) (name : String) : List (Value × Value) :=
  let start := n.nameOf name ++ n.delimiter
  if n.delimiter.isEmpty then []
  else
    vs.foldl (fun es (k, v) =>
      match k.text? with
      | some s =>
        if s.startsWith start then
          nest (decoded v) (n.keysOf (String.ofList (s.toList.drop start.length))) es
        else es
      | none => es) []

def plainField (n : Naming) (vs : List (Value × Value)) (name : String) : List (Value × Value) :=
  match Value.field? vs (n.nameOf name) with
  | some v => [(.text name, v)]
  | none => []

def jsonField (n : Naming) (vs : List (Value × Value)) (name : String) :
    Except Fault (List (Value × Value)) :=
  let inner := n.nested vs name
  match Value.field? vs (n.nameOf name) with
  | none => .ok (if inner.isEmpty then [] else [(.text name, .map inner)])
  | some (.text s) =>
    match Json.read s with
    | .ok .null => .ok []
    | .ok (.map es) => .ok [(.text name, .map (Value.coverEntries inner es))]
    | .ok v => .ok [(.text name, v)]
    | .error _ => .error (.other .settings "")
  | some v => .ok [(.text name, v)]

def fields (n : Naming) (vs : List (Value × Value)) : Except Fault (List (Value × Value)) := do
  let hooks ← n.jsonField vs "hooks"
  return n.plainField vs "debug" ++ n.plainField vs "encoding" ++ hooks ++
    n.plainField vs "config_path"

end Naming

end Settings

end FilterTree
