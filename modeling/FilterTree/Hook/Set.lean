import FilterTree.Hook.Context

/-! Hooks and hook sets. A hook is a function of an expression's context; a hook set holds at most
one for each of five purposes. -/

namespace FilterTree

structure Hook where
  name : String
  run : Context → Outcome Value

instance : Inhabited Hook := ⟨"", fun _ => pure .null⟩

def Value.longTypeName (v : Value) : String :=
  match v with
  | .date _ _ => "datetime.date"
  | .moment _ _ => "datetime.datetime"
  | v => v.typeName

def Hook.inert (v : Value) : Hook :=
  ⟨v.display, fun _ => .fail (.other .type s!"'{v.longTypeName}' object is not callable")⟩

def Hook.ofText (name : String) (text : Context → Outcome String) : Hook :=
  ⟨name, fun c => Value.text <$> text c⟩

inductive HookName where
  | validate | renderKey | renderValue | renderOperator | renderExpression
  deriving DecidableEq, Repr

namespace HookName

def all : List HookName :=
  [.validate, .renderKey, .renderValue, .renderOperator, .renderExpression]

def name : HookName → String
  | .validate => "validate"
  | .renderKey => "render_key"
  | .renderValue => "render_value"
  | .renderOperator => "render_operator"
  | .renderExpression => "render_expression"

def camelName : HookName → String
  | .validate => "validate"
  | .renderKey => "renderKey"
  | .renderValue => "renderValue"
  | .renderOperator => "renderOperator"
  | .renderExpression => "renderExpression"

def ofName? (s : String) : Option HookName :=
  all.find? (·.name == s)

def ofSpelling? (s : String) : Option HookName :=
  all.find? fun n => n.name == s || n.camelName == s

end HookName

structure HookSet where
  validate : Option Hook
  renderKey : Option Hook
  renderValue : Option Hook
  renderOperator : Option Hook
  renderExpression : Option Hook
  deriving Inhabited

namespace HookSet

def empty : HookSet := ⟨none, none, none, none, none⟩

def get (h : HookSet) : HookName → Option Hook
  | .validate => h.validate
  | .renderKey => h.renderKey
  | .renderValue => h.renderValue
  | .renderOperator => h.renderOperator
  | .renderExpression => h.renderExpression

def put (h : HookSet) (n : HookName) (hook : Option Hook) : HookSet :=
  match n with
  | .validate => { h with validate := hook }
  | .renderKey => { h with renderKey := hook }
  | .renderValue => { h with renderValue := hook }
  | .renderOperator => { h with renderOperator := hook }
  | .renderExpression => { h with renderExpression := hook }

def defined (h : HookSet) : List HookName :=
  HookName.all.filter fun n => (h.get n).isSome

def display (h : HookSet) : String :=
  let each := HookName.all.map fun n => n.name ++ "=" ++ ((h.get n).map Hook.name).getD "None"
  "HookSet(" ++ ", ".intercalate each ++ ")"

theorem get_put_self (h : HookSet) (n : HookName) (hook : Option Hook) :
    (h.put n hook).get n = hook := by
  cases n <;> rfl

theorem get_put_of_ne (h : HookSet) {n m : HookName} (hook : Option Hook) (hne : m ≠ n) :
    (h.put n hook).get m = h.get m := by
  cases n <;> cases m <;> first | rfl | exact absurd rfl hne

end HookSet

/-- What a mapping may give under a hook's name: nothing, a hook, or a value that is none. -/
inductive Entry where
  | absent
  | hook (h : Hook)
  | inert (v : Value)

def Entry.ofValue : Value → Entry
  | .null => .absent
  | v => .inert v

def Entry.hook? : Entry → Option Hook
  | .absent => none
  | .hook h => some h
  | .inert v => some (.inert v)

namespace HookSet

def putEntry (h : HookSet) (name : Value) (e : Entry) : Except Fault HookSet :=
  match name.text?.bind HookName.ofSpelling? with
  | none => .error (.misuse (.unknownHook name))
  | some n =>
    match e with
    | .inert _ => .error (.misuse (.notCallable name))
    | e => .ok (h.put n e.hook?)

/-- The hook set of a mapping. Of two entries for one purpose the later counts. -/
def ofEntries (entries : List (Value × Entry)) : Except Fault HookSet :=
  entries.foldlM (fun h (name, e) => h.putEntry name e) empty

end HookSet

/-- What may be handed over as hooks: nothing, a hook set with its identity, a mapping, or something
that is neither. -/
inductive Hooks where
  | none
  | set (identity : Nat) (hooks : HookSet)
  | mapping (entries : List (Value × Entry))
  | other (v : Value)

instance : Inhabited Hooks := ⟨.none⟩

namespace Hooks

def ofValue : Value → Hooks
  | .null => .none
  | .map es => .mapping (es.map fun (k, v) => (k, .ofValue v))
  | v => .other v

def emptyIdentity : Nat := 0

def resolve (fresh : Nat) : Hooks → Except Fault (Nat × HookSet)
  | .none => .ok (emptyIdentity, .empty)
  | .set identity hooks => .ok (identity, hooks)
  | .mapping entries => (HookSet.ofEntries entries).map (fresh, ·)
  | .other v => .error (.misuse (.hooksExpected v.typeName))

def parts : List (String × Option Hook) :=
  let failing (f : Fault) (name : String) : String × Option Hook :=
    (name, some ⟨name, fun _ => .fail f⟩)
  let making (v : Value) (name : String) : String × Option Hook :=
    (name, some ⟨name, fun _ => pure v⟩)
  let incomparable := Value.foreign "NotImplementedType" .null
  ["replace", "get", "defined", "__dir__", "__format__", "__getattribute__", "__getstate__",
      "__hash__", "__init_subclass__", "__new__", "__reduce__", "__reduce_ex__", "__repr__",
      "__setattr__", "__sizeof__", "__str__"].map (failing (.other .type "wrong arguments")) ++
    ["__annotations__", "__dataclass_fields__", "__dataclass_params__", "__dict__", "__doc__",
      "__match_args__", "__module__"].map (failing (.other .type "object is not callable")) ++
    ["__eq__", "__ge__", "__gt__", "__le__", "__lt__", "__ne__", "__subclasshook__"].map
      (making incomparable) ++
    [failing (.other .attribute "no attribute 'items'") "from_mapping",
     failing (.other .frozen "cannot delete field") "__delattr__",
     making (.foreign "HookSet" .null) "__class__", ("__weakref__", Option.none),
     ("__init__", some ⟨"__init__", fun _ => do
        Outcome.emit .renewed
        return .null⟩)]

def renewed (hooks : Hooks) : Hooks :=
  match hooks with
  | .set identity _ =>
    .set identity (HookSet.empty.put .validate (some (.inert (.foreign Context.typeName .null))))
  | hooks => hooks

/-- Looks a hook up by its plain name without making a hook set first. Only a hook set refuses names
it does not know. -/
def lookup (hooks : Hooks) (name : String) : Except Fault (Option Hook) :=
  match hooks with
  | .none => .ok Option.none
  | .set _ h =>
    match HookName.ofName? name, parts.find? (·.1 == name) with
    | some n, _ => .ok (h.get n)
    | Option.none, some (_, part) => .ok part
    | Option.none, Option.none =>
      .error (.other .attribute s!"'HookSet' object has no attribute '{name}'")
  | .mapping entries =>
    .ok ((entries.find? fun e => e.1.same true (.text name)).bind fun e => e.2.hook?)
  | .other v => .error (.other .attribute s!"'{v.longTypeName}' object has no attribute 'get'")

theorem lookup_set (identity : Nat) (h : HookSet) (n : HookName) :
    lookup (.set identity h) n.name = .ok (h.get n) := by
  cases n <;> rfl

def definedNames (hooks : Hooks) : Except Fault (List String) :=
  match hooks with
  | .set _ h => .ok (h.defined.map (·.name))
  | _ => .error (.other .attribute "no attribute 'defined'")

end Hooks

end FilterTree
