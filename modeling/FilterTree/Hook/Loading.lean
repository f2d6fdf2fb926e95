import FilterTree.Hook.Catalogue

/-! Hooks by reference: the name of a registered specification, or the dotted path of a member of a
module. -/

namespace FilterTree

def splitLast (s : String) : Option (String × String) :=
  let r := s.toList.reverse
  let name := r.takeWhile (· != '.')
  match r.dropWhile (· != '.') with
  | [] => none
  | _ :: before => some (String.ofList before.reverse, String.ofList name.reverse)

def enclosing (path : String) : List String :=
  let parts := path.splitOn "."
  (List.range parts.length).map fun i => ".".intercalate (parts.take (i + 1))

/-- Finds a module by walking inwards; the first step that fails names the cause. -/
def findModule (path : String) : Except String ImportModule :=
  let step (found : Option ImportModule) (p : String) : Except String (Option ImportModule) :=
    match found with
    | some m =>
      if !m.isPackage then .error s!"No module named {quoted p}; {quoted m.path} is not a package"
      else match ImportModule.find? p with
        | some m => .ok (some m)
        | none => .error s!"No module named {quoted p}"
    | none =>
      match ImportModule.find? p with
      | some m => .ok (some m)
      | none => .error s!"No module named {quoted p}"
  match (enclosing path).foldlM step none with
  | .ok (some m) => .ok m
  | .ok none => .error s!"No module named {quoted path}"
  | .error e => .error e

inductive Import where
  | member (m : Member)
  /-- There is no such module or no such member. -/
  | missing (reason : String)
  /-- Another fault in a module on the way or in a look at the member. -/
  | failing (f : Fault)

/-- What there is to import, by the path of a module and the name of a member. The modules count as
imported before: what they register is in the registry already. -/
abbrev Modules := String → String → Import

def Modules.own : Modules := fun path name =>
  match findModule path with
  | .error reason => .missing reason
  | .ok m =>
    match m.member? name with
    | none => .missing s!"module '{path}' has no attribute '{name}'"
    | some member => .member member

def loadPath (modules : Modules) (ref : String) (params : Linked) : Outcome Hook :=
  match splitLast ref with
  | none => .fail (.misconfigured (.unknownHook ref))
  | some (path, name) =>
    if path.isEmpty then .fail (.other .value "Empty module name")
    else if path.startsWith "." then
      .fail (.other .type "the 'package' argument is required to perform a relative import")
    else
      match modules path name with
      | .missing reason => .fail (.misconfigured (.loadFailed ref reason))
      | .failing f => .fail f
      | .member (.spec s) => Outcome.ofExcept (s.bind params)
      | .member (.posing bind) => Outcome.ofExcept (bind params)
      | .member .inert => .fail (.misconfigured (.notCallable ref))
      | .member (.callable h) => do
        let given := params.portrait
        if given.truthy then
          Outcome.log .warning .config
            s!"Hook {ref} is not a registered hook, ignoring params: {given.plain}"
        return h

/-- Loads a hook by reference: a registered name first, then a dotted path. A collection that may be
a key is a reference too, though none that leads anywhere. -/
def loadHook (modules : Modules) (registry : Registry) (ref : Value) (params : Linked) :
    Outcome Hook :=
  let unknown : Outcome Hook := .fail (.misconfigured (.unknownHook ref.plain))
  match ref with
  | .tuple xs | .frozenset xs =>
    if !ref.isKey then .fail (.other .type s!"unhashable type: '{ref.typeName}'")
    else if xs.any (·.same false (.text ".")) then
      .fail (.misconfigured (.loadFailed ref.plain
        s!"'{ref.typeName}' object has no attribute 'rsplit'"))
    else unknown
  | ref =>
    match ref.text? with
    | none => .fail (.other .type "not a reference")
    | some s =>
      match registry.get? s with
      | some spec => Outcome.ofExcept (spec.bind params)
      | none => if s.toList.contains '.' then loadPath modules s params else unknown

end FilterTree
