import FilterTree.Settings.Layer
import FilterTree.Value.Order

/-! Settings files. A file covers the settings made without it, without further checks; where
several places may hold one, the first that does counts. -/

namespace FilterTree.Settings

def holds? (v : Value) (name : String) : Option Bool :=
  match v with
  | .list xs | .tuple xs | .set xs | .frozenset xs => some (xs.any (·.same false (.text name)))
  | v => v.text?.map fun s => 1 < (s.splitOn name).length

def sectionFault (v : Value) : Fault :=
  match holds? v "debug", holds? v "encoding" with
  | some false, some false => .other .attribute "no attribute 'get'"
  | _, _ => .other .type "no mapping"

def sectionEntries (l : Linked) : Except Fault (List (Value × Linked)) :=
  match l.entries? with
  | some es => .ok es
  | none => .error (sectionFault l.portrait)

def sectionOf (path : Path) (document : Linked) : Except Fault (List (Value × Linked)) :=
  if !document.portrait.truthy then .ok []
  else
    match document.entries? with
    | none => .error (.misconfigured (.notMapping path.text document.portrait.typeName))
    | some es =>
      match Value.field? es "condbuilder" with
      | none => .ok []
      | some body => if body.portrait.truthy then sectionEntries body else .ok []

def coverDebug (es : List (Value × Linked)) (s : Settings) : Settings :=
  match Value.field? es "debug" with
  | some v => { s with debug := v.portrait.truthy }
  | none => s

def coverEncoding (es : List (Value × Linked)) (s : Settings) : Except Fault Settings :=
  match (Value.field? es "encoding").map Linked.portrait with
  | none => .ok s
  | some v =>
    match v.text?.bind Format.ofName? with
    | some f => .ok { s with encoding := f }
    | none => do
      let shown ← v.displayText
      .error (.misconfigured (.unknownEncoding shown))

def coverHooks (es : List (Value × Linked)) (s : Settings) : Except Fault Settings :=
  match Value.field? es "hooks" with
  | none => .ok s
  | some l =>
    if !l.portrait.truthy then .ok s
    else
      match l.entries? with
      | some hooks => .ok { s with hooks := hooks }
      | none => .error (.misconfigured (.hooksFormat l.portrait.typeName))

def unknownKeys (es : List (Value × Linked)) : List Value :=
  (es.map (·.1)).filter fun k => ["debug", "encoding", "hooks"].all fun n => !k.same true (.text n)

def warnUnknown (es : List (Value × Linked)) : Outcome Unit :=
  match unknownKeys es with
  | [] => pure ()
  | keys =>
    match Value.sorted? keys with
    | some keys =>
      Outcome.log .warning .config
        s!"Ignoring unknown condbuilder settings: {(Value.list keys).display}"
    | none => .fail (.other .type "'<' not supported")

def cover (text : String) (s : Settings) : Outcome Settings := do
  let document ← Outcome.ofExcept (match Yaml.read text with
    | .ok l => .ok l
    | .error .invalid => .error (.misconfigured (.badYaml s.path.text))
    | .error f => .error (f.toFault))
  let es ← Outcome.ofExcept (sectionOf s.path document)
  let s ← Outcome.ofExcept (coverEncoding es (coverDebug es s))
  let s ← Outcome.ofExcept (coverHooks es s)
  warnUnknown es
  return s

/-- The settings made for a file, which is their path; no other may be given. -/
def makeAt (h : Host) (path : Path) (given : List (Value × Value)) : Except Fault Settings :=
  let taken := ["config_path", "cls", "yaml_path"].filter fun n => (Value.field? given n).isSome
  if !taken.isEmpty then .error (.other .type "got multiple values for an argument")
  else make h ((.text "config_path", .text path.text) :: given)

def load (h : Host) (path : Path) (given : List (Value × Value)) : Outcome Settings := do
  let s ← Outcome.ofExcept (makeAt h path given)
  match ← Outcome.ofExcept (h.read? path) with
  | some text => s.cover text
  | none => return s

def inNamedDirectory (h : Host) (directory : String) : Outcome Settings := do
  let path := (Path.ofText directory).child fileName
  Outcome.log .info .config s!"Using config directory from environment: {directory}"
  if ← Outcome.ofExcept (h.exists? path) then load h path []
  else
    Outcome.log .info .config s!"{fileName} not found at {path.text}, using default config"
    Outcome.ofExcept (makeAt h path [])

def nearby (h : Host) : Outcome Settings := do
  let here := h.directory.child fileName
  if ← Outcome.ofExcept (h.exists? here) then
    Outcome.log .info .config s!"Loading condbuilder config from: {here.text}"
    load h here []
  else
    let there := ((← Outcome.ofExcept h.home).child ".condbuilder").child fileName
    if ← Outcome.ofExcept (h.exists? there) then
      Outcome.log .info .config s!"Using fallback config: {there.text}"
      load h there []
    else
      Outcome.log .info .config s!"No {fileName} found in any location, using defaults"
      Outcome.ofExcept (make h [])

def discover (h : Host) : Outcome Settings :=
  let named := (h.lookup? "CONDBUILDER_CONFIG_DIR").getD ""
  if named.isEmpty then nearby h else inNamedDirectory h named

end FilterTree.Settings
