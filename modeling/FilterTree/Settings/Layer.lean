import FilterTree.Host
import FilterTree.Settings.Assignments
import FilterTree.Settings.Naming

/-! Settings from several layers: the fields a caller gives lie over those that variables give,
these over the variables of files, and all of them over secrets. -/

namespace FilterTree.Settings

def pathsOf (given : List (Value × Value)) (name : String) : Except Fault (List Path) :=
  match (Value.field? given name).getD .null with
  | .null => .ok []
  | v =>
    match v.text?, v.items? with
    | some s, _ => .ok [Path.ofText s]
    | none, some items =>
      match items.mapM Value.text? with
      | some paths => .ok (paths.map Path.ofText)
      | none => .error (.other .type "expected str, bytes or os.PathLike object")
    | none, none => .error (.other .type "object is not iterable")

def fileVariables (h : Host) (paths : List Path) :
    Except Fault (List (String × Option String)) := do
  let each ← paths.mapM fun p => do
    return (← h.readFile? (← h.expanded p)).map (Assignments.read h.environment)
  return (each.map (·.getD [])).flatten

/-- The text of the secret of a name, in the last directory that has one. The file of a secret goes
by the name of its variable. -/
def secret? (h : Host) (n : Naming) (directories : List Path) (name : String) :
    Except Fault (Option String) := do
  let file := n.nameOf name
  let names := if n.isExact then [file] else [file, file.toUpper]
  let places := directories.reverse.flatMap fun d => names.map d.child
  let texts ← places.mapM h.readFile?
  return (texts.findSome? id).map fun s => String.ofList (trimmed s.toList)

def secretFields (h : Host) (n : Naming) (paths : List Path) :
    Except Fault (List (Value × Value)) := do
  let places ← paths.mapM h.expanded
  let directories ← places.filterM h.exists?
  if directories.any fun d => !h.look d matches .directory then throw (.other .settings "")
  let each ← ["debug", "encoding", "hooks", "config_path"].mapM fun name => do
    return (← secret? h n directories name).map fun s => (Value.text (n.nameOf name), Value.text s)
  ({ n with delimiter := "" }).fields (each.filterMap id)

def namedFields (v : Value) : Except Fault (List (Value × Value)) :=
  match v with
  | .map es =>
    if es.all fun e => e.1.text?.isSome then .ok es
    else .error (.other .type "keywords must be strings")
  | _ => .error (.other .type "argument must be a mapping")

def make (h : Host) (given : List (Value × Value)) : Except Fault Settings := do
  if (Value.field? given "__pydantic_self__").isSome then
    throw (.other .type "got multiple values for argument '__pydantic_self__'")
  let assigned ← fileVariables h (← pathsOf given "_env_file")
  let secrets ← pathsOf given "_secrets_dir"
  let n ← Naming.ofGiven given
  let own ← n.fields (n.table (h.environment.map fun (name, s) => (name, some s)))
  let filed ← n.fields (n.table assigned)
  let secret ← secretFields h n secrets
  let below := Value.coverEntries own (Value.coverEntries filed secret)
  match ofFields (Value.coverEntries given below) with
  | .ok s => .ok s
  | .error faults => .error (.schema faults)

end FilterTree.Settings
