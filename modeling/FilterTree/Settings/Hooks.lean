import FilterTree.Hook.Loading
import FilterTree.Settings

/-! The hook set that settings describe. -/

namespace FilterTree.Settings

def reference (slot : Value) (entry : Linked) : Except Fault (Value × Linked) := do
  match entry.entries? with
  | some es =>
    let ref := ((Value.field? es "hook").map Linked.portrait).getD (.text "")
    let params := (Value.field? es "params").getD (.ofValue .null)
    if ref.truthy then return (ref, params)
    else throw (.misconfigured (.hookMissing (← slot.plainText) (← entry.portrait.displayText)))
  | none =>
    match entry.portrait.text? with
    | some s => return (.text s, .ofValue .null)
    | none => throw (.other .attribute "no attribute 'get'")

def loadEntry (modules : Modules) (registry : Registry) (h : HookSet) (slot : Value)
    (entry : Linked) : Outcome HookSet :=
  match slot.text?.bind HookName.ofSpelling? with
  | none => do
    let name ← Outcome.ofExcept slot.plainText
    .fail (.misconfigured (.unknownSlot name))
  | some n => do
    let (ref, params) ← Outcome.ofExcept (reference slot entry)
    let hook ← loadHook modules registry ref params
    let given := params.portrait
    let shown ← if given.truthy then
        Outcome.ofExcept (given.plainText.map (" with params: " ++ ·))
      else pure ""
    Outcome.log .debug .config s!"Loaded hook: {ref.plain} for {slot.plain}{shown}"
    return h.put n (some hook)

def hookSet (modules : Modules) (registry : Registry) (s : Settings) : Outcome HookSet :=
  s.hooks.foldlM (fun h (slot, entry) => loadEntry modules registry h slot entry) .empty

end FilterTree.Settings
