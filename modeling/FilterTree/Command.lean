import FilterTree.Encoding
import FilterTree.Path

/-! Command lines: options of the program, a verb, and the options and the file of the verb. Hyphens
and underscores in option names are the same. -/

namespace FilterTree

inductive Action where
  | render (raw : Bool)
  | show
  /-- Without a target, the format is that of the settings. -/
  | convert (target : Option Format)
  deriving DecidableEq, Repr

structure Command where
  action : Action
  /-- Without a file, the input is read. -/
  file : Option Path
  /-- Where the settings file lies, if not where it would be looked for. -/
  directory : Option Path
  debug : Bool
  deriving DecidableEq, Repr

inductive Refusal where
  | help
  | usage
  deriving DecidableEq, Repr

inductive Verb where
  | render | show | convert
  deriving DecidableEq, Repr

inductive Wanted where
  | target | directory
  deriving DecidableEq, Repr

inductive Switch where
  | help
  | raw (on : Bool)
  | debug (on : Bool)
  deriving DecidableEq, Repr

namespace Command

def verbOf? (s : String) : Option Verb :=
  if s == "render" then some .render
  else if s == "show" then some .show
  else if s == "convert" then some .convert
  else none

def switchOf? (verb : Option Verb) (name : String) : Option Switch :=
  if name == "-h" || name == "--help" then some .help
  else match verb with
    | some .render =>
      if name == "--raw" then some (.raw true)
      else if name == "--no-raw" then some (.raw false)
      else none
    | none =>
      if name == "--debug" then some (.debug true)
      else if name == "--no-debug" then some (.debug false)
      else none
    | _ => none

def wantedOf? (verb : Option Verb) (name : String) : Option Wanted :=
  match verb with
  | some .convert => if name == "--to" then some .target else none
  | none => if name == "--config-dir" then some .directory else none
  | _ => none

def usualName (name : String) : String :=
  if name.startsWith "--" then String.ofList (name.toList.map fun c => if c == '_' then '-' else c)
  else name

def isOptionLike : List Char → Bool
  | '-' :: '-' :: c :: _ => c.isAlpha
  | '-' :: c :: _ => c.isAlpha
  | _ => false

def pathOf (s : String) : Option Path :=
  if s == "None" then none else some (Path.ofText s)

structure Draft where
  verb : Option Verb
  file : Option String
  raw : Bool
  target : Option Format
  directory : Option Path
  debug : Bool
  /-- The option that the next argument is the value of. -/
  wanted : Option Wanted
  /-- Whether options have come to their end. -/
  ended : Bool
  /-- Whether there was an argument that nothing is known about. -/
  surplus : Bool

namespace Draft

def empty : Draft := ⟨none, none, false, none, none, false, none, false, false⟩

def addPlain (d : Draft) (s : String) : Draft :=
  match d.verb, d.file with
  | none, _ =>
    match verbOf? s with
    | some v => if d.ended then { d with surplus := true } else { d with verb := some v }
    | none => { d with surplus := true }
  | some _, none => { d with file := some s }
  | some _, some _ => { d with surplus := true }

def addValue (d : Draft) (w : Wanted) (s : String) : Except Refusal Draft :=
  match w with
  | .directory => .ok { d with directory := pathOf s, wanted := none }
  | .target =>
    match Format.ofName? s with
    | some f => .ok { d with target := some f, wanted := none }
    | none => if s == "None" then .ok { d with target := none, wanted := none } else .error .usage

def addSwitch (d : Draft) : Switch → Except Refusal Draft
  | .help => .error .help
  | .raw on => .ok { d with raw := on }
  | .debug on => .ok { d with debug := on }

/-- Takes an argument that is not the value of the one before it. What is attached to a switch by an
equals sign is read as the next argument. -/
def addFree (d : Draft) (a : List Char) : Except Refusal Draft :=
  let name := usualName (String.ofList (a.takeWhile (· != '=')))
  match _h : a.dropWhile (· != '='), wantedOf? d.verb name, switchOf? d.verb name with
  | [], some w, _ => .ok { d with wanted := some w }
  | _ :: value, some w, _ => d.addValue w (String.ofList value)
  | [], none, some s => d.addSwitch s
  | _ :: value, none, some s =>
    match s with
    | .help => .ok { d with surplus := true }
    | s => (d.addSwitch s).bind fun d => addFree d value
  | _, none, none =>
    if a == ['-', '-'] then .ok { d with ended := true }
    else if isOptionLike a then .ok { d with surplus := true }
    else .ok (d.addPlain (String.ofList a))
  termination_by a.length
  decreasing_by
    have : (a.dropWhile (· != '=')).length ≤ a.length := (List.dropWhile_sublist _).length_le
    rw [_h] at this
    exact this

def add (d : Draft) (a : String) : Except Refusal Draft :=
  if d.ended then .ok (d.addPlain a)
  else
    match d.wanted with
    | none => d.addFree a.toList
    | some w => if a == "--" || isOptionLike a.toList then .error .usage else d.addValue w a

def finish (d : Draft) : Except Refusal Command :=
  match d.verb with
  | none => .error .usage
  | some verb =>
    if d.surplus || d.wanted.isSome then .error .usage
    else
      let action : Action := match verb with
        | .render => .render d.raw
        | .show => .show
        | .convert => .convert d.target
      .ok ⟨action, d.file.bind pathOf, d.directory, d.debug⟩

end Draft

def ofArguments (args : List String) : Except Refusal Command := do
  (← args.foldlM Draft.add Draft.empty).finish

end Command

end FilterTree
