import FilterTree.Hook.Set
import FilterTree.Text.Lowercase
import FilterTree.Value.Linked
import FilterTree.Value.Literal

/-! Named hooks. A specification has a name, a purpose, a handler and static parameters; binding it
gives a hook of the context alone. The four shipped ones check keys and quote for queries. -/

namespace FilterTree

abbrev Params := List (Value × Linked)

namespace Linked

def iterate (l : Linked) : Except Fault (List Linked) :=
  match l.items? with
  | some xs => .ok xs
  | none => .error (.other .type s!"'{l.portrait.longTypeName}' object is not iterable")

/-- Reads an item as a key and a value: it must have exactly two items, the first fit for a key. -/
def asPair (l : Linked) : Except Fault (Value × Linked) :=
  match l.items? with
  | none => .error (.other .type "cannot convert dictionary update sequence element to a sequence")
  | some [k, x] =>
    let key := k.portrait
    if key.isKey then .ok (key, x)
    else .error (.other .type s!"unhashable type: '{key.typeName}'")
  | some _ => .error (.other .value "dictionary update sequence element has wrong length")

def asEntries (l : Linked) : Except Fault (List (Value × Linked)) :=
  match l.entries? with
  | some es => .ok es
  | none => do
    let items ← l.iterate
    items.mapM asPair

end Linked

structure Spec where
  name : String
  slot : HookName
  params : Value
  handler : Context → Params → Outcome Value

namespace Spec

def same (a b : Spec) : Bool :=
  a.name == b.name

def bind (s : Spec) (extra : Linked) : Except Fault Hook := do
  let own ← (Linked.ofValue s.params).asEntries
  let more ← if extra.portrait.truthy then extra.asEntries else .ok []
  let params := (own ++ more).foldl (fun es (k, l) => Value.insertEntry es k l) []
  return ⟨s.name, fun c => s.handler c params⟩

def create (name : String) (handler : Context → Params → Outcome Value) (slot params : Value) :
    Except Fault Spec :=
  match slot.text?.bind HookName.ofName? with
  | none => .error (.misuse (.unknownSlot slot))
  | some n => .ok ⟨name, n, if params.truthy then params else .map [], handler⟩

end Spec

namespace Shipped

def keyWhitelistHandler (c : Context) (params : Params) : Outcome Value := do
  let keys := (Value.field? params "keys").getD (.ofValue .null)
  let caseSensitive := (Value.field? params "case_sensitive").any (·.portrait.truthy)
  let fold (s : String) : String := if caseSensitive then s else lowercase s
  let key ← c.key.plainText
  let items ← Outcome.ofExcept (if keys.portrait.truthy then keys.iterate else .ok [])
  let names ← Outcome.ofExcept (items.mapM fun k => k.portrait.plainText)
  let allowed := names.map fold
  if allowed.contains (fold key) then return .null
  else
    let shown := Value.list (Value.sortKeyed (allowed.eraseDups.map fun s => (s, .text s)))
    Outcome.log .debug .keyWhitelist
      s!"Key {c.key.label} rejected, allowed: {shown.display}"
    .fail (.rejected s!"Key '{key}' not allowed" none)

def keyWhitelist : Spec where
  name := "key_whitelist"
  slot := .validate
  params := .map []
  handler := keyWhitelistHandler

def quoteIdentifier : Spec where
  name := "quote_identifier"
  slot := .renderKey
  params := .map []
  handler c _ := .text <$> c.key.identifierText

def quoteLiteral : Spec where
  name := "quote_literal"
  slot := .renderValue
  params := .map []
  handler c _ := .text <$> c.value.literalText

def lowercaseKey : Spec where
  name := "lowercase_key"
  slot := .renderKey
  params := .map []
  handler c _ := (.text ∘ lowercase) <$> c.key.plainText

def postgresHooks : HookSet where
  validate := none
  renderKey := some (.ofText quoteIdentifier.name fun c => c.key.identifierText)
  renderValue := some (.ofText quoteLiteral.name fun c => c.value.literalText)
  renderOperator := none
  renderExpression := none

end Shipped

structure Registry where
  specs : List Spec

namespace Registry

def initial : Registry :=
  ⟨[Shipped.keyWhitelist, Shipped.quoteIdentifier, Shipped.quoteLiteral, Shipped.lowercaseKey]⟩

def names (r : Registry) : List String :=
  r.specs.map (·.name)

def get? (r : Registry) (name : String) : Option Spec :=
  r.specs.find? (·.name == name)

/-- Registers a specification; one of the same name is replaced in its place. -/
def register (r : Registry) (s : Spec) : Registry :=
  if r.specs.any (·.name == s.name) then
    ⟨r.specs.map fun t => if t.name == s.name then s else t⟩
  else ⟨r.specs ++ [s]⟩

def unregister (r : Registry) (name : String) : Registry :=
  ⟨r.specs.filter (·.name != name)⟩

def clear (_ : Registry) : Registry :=
  ⟨[]⟩

end Registry

end FilterTree
