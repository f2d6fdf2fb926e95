import FilterTree.Tree.Basic

/-! The store of conditions and expressions, which are objects with an identity: one condition may
be a slot of several others, and all of them see what happens to it. Every operation gives the store
after it; one that fails gives none, so that the store before it stays. -/

namespace FilterTree

structure Slot where
  join : Join
  payload : NodeId
  deriving DecidableEq, Repr

/-- An argument of a call, and what an expression keeps of it: a value, a node of the store, a hook
set, or a collection in which there may be any of these. -/
inductive Argument where
  | value (v : Value)
  | node (id : NodeId)
  | hooks (h : HookSet)
  | list (items : List Argument)
  | tuple (items : List Argument)
  | map (entries : List (Value × Argument))

namespace Argument

mutual

def operand (see : NodeId → Operand) : Argument → Operand
  | .value v => .value v
  | .node id => see id
  | .hooks h => .object none "HookSet" (pure h.display) (pure h.display) (.text h.display)
  | .list xs => .list (operands see xs)
  | .tuple xs => .tuple (operands see xs)
  | .map es => .map (entryOperands see es)

def operands (see : NodeId → Operand) : List Argument → List Operand
  | [] => []
  | x :: xs => operand see x :: operands see xs

def entryOperands (see : NodeId → Operand) : List (Value × Argument) → List (Value × Operand)
  | [] => []
  | (k, x) :: es => (k, operand see x) :: entryOperands see es

end

mutual

/-- The nodes in an argument. None is the key of a mapping, since they can change. -/
def nodes : Argument → List NodeId
  | .value _ | .hooks _ => []
  | .node id => [id]
  | .list xs | .tuple xs => nodesAmong xs
  | .map es => nodesOfEntries es

def nodesAmong : List Argument → List NodeId
  | [] => []
  | x :: xs => nodes x ++ nodesAmong xs

def nodesOfEntries : List (Value × Argument) → List NodeId
  | [] => []
  | (_, x) :: es => nodes x ++ nodesOfEntries es

end

def coerced : Argument → Argument
  | .value v => .value (coerceOperator v)
  | a => a

mutual

def normal : Argument → Except Fault Argument
  | .value v => match v.obstacle? with
    | some f => .error f
    | none => .ok (.value v.normal)
  | .list xs | .tuple xs => (normalAll xs).map .list
  | .map es => (normalEntries es).map .map
  | a => .ok a

def normalAll : List Argument → Except Fault (List Argument)
  | [] => .ok []
  | x :: xs => do
    let first ← normal x
    let rest ← normalAll xs
    return first :: rest

def normalEntries : List (Value × Argument) → Except Fault (List (Value × Argument))
  | [] => .ok []
  | (k, x) :: es => do
    let first ← normal x
    let rest ← normalEntries es
    return (k, first) :: rest

end

end Argument

inductive Body where
  | leaf (key operator value : Argument)
  | branch (slots : List Slot)

structure Node where
  hooks : Hooks
  body : Body

instance : Inhabited Node := ⟨⟨.none, .branch []⟩⟩

structure Store where
  nodes : Array Node
  /-- The next free identity of a hook set. -/
  nextIdentity : Nat

namespace Store

def empty : Store := ⟨#[], 1⟩

def adopt (s : Store) (h : HookSet) : Store × Hooks :=
  ({ s with nextIdentity := s.nextIdentity + 1 }, .set s.nextIdentity h)

def push (s : Store) (n : Node) : Store × NodeId :=
  ({ s with nodes := s.nodes.push n }, s.nodes.size)

def slots (s : Store) (id : NodeId) : List Slot :=
  match s.nodes[id]? with
  | some ⟨_, .branch slots⟩ => slots
  | _ => []

def hooks (s : Store) (id : NodeId) : Hooks :=
  match s.nodes[id]? with
  | some n => n.hooks
  | none => .none

def isBranch (s : Store) (id : NodeId) : Bool :=
  match s.nodes[id]? with
  | some ⟨_, .branch _⟩ => true
  | _ => false

/-- The tree below a node, at most `depth` levels of it. Nodes that are parts of expressions count
as levels. -/
def viewWithin (s : Store) : Nat → NodeId → Tree
  | 0, id => .branch id .none []
  | depth + 1, id =>
    let see (n : NodeId) : Operand :=
      let t := s.viewWithin depth n
      if depth = 0 then t.unending else t.asOperand
    match s.nodes[id]? with
    | none => .branch id .none []
    | some ⟨h, .leaf key operator value⟩ =>
      .leaf id h ⟨key.operand see, operator.operand see, value.operand see⟩
    | some ⟨h, .branch slots⟩ =>
      .branch id h (slots.map fun slot => (slot.join, s.viewWithin depth slot.payload))

/-- The tree below a node. No path is longer than there are nodes, because none comes back. -/
def view (s : Store) (id : NodeId) : Tree :=
  s.viewWithin s.nodes.size id

def see (s : Store) (id : NodeId) : Operand :=
  (s.view id).asOperand

def reaches (s : Store) (id target : NodeId) : Bool :=
  (s.view id).ids.contains target

def setSlots (s : Store) (id : NodeId) (slots : List Slot) : Store :=
  { s with nodes := s.nodes.modify id fun n => { n with body := .branch slots } }

def setHooks (s : Store) (id : NodeId) (h : Hooks) : Store :=
  { s with nodes := s.nodes.modify id fun n => { n with hooks := h } }

def rebind (s : Store) (id : NodeId) (h : Hooks) : Store :=
  (s.view id).ids.foldl (fun s i => s.setHooks i h) s

/-- The hooks a new node gets from what it was handed, and the store with their identity taken. -/
def takeHooks (s : Store) (given : Hooks) : Except Fault (Store × Hooks) := do
  let (identity, h) ← given.resolve s.nextIdentity
  return ({ s with nextIdentity := max s.nextIdentity (identity + 1) }, .set identity h)

def newCondition (s : Store) (given : Hooks) : Except Fault (Store × NodeId) := do
  let (s, h) ← s.takeHooks given
  return s.push ⟨h, .branch []⟩

def rejection (key : Operand) (f : Fault) : Outcome Fault :=
  match f with
  | .rejected _ _ => pure f
  | f => do
    let name ← key.plainText
    return .rejected s!"Expression '{name}' failed validation: {f.message}" (some f.kind)

/-- Calls the validation hook, if there is one. Its result is ignored, its failure is not. -/
def validate (h : HookSet) (c : Context) : Outcome Unit :=
  match h.validate with
  | none => pure ()
  | some hook =>
    let r := hook.run c
    match r.result with
    | .ok _ => ⟨r.events, .ok ()⟩
    | .error f => do
      (⟨r.events, .ok ()⟩ : Outcome Unit)
      .fail (← rejection c.key f)

def newExpression (s : Store) (key operator value : Argument) (given : Hooks) :
    Outcome (Store × NodeId) := do
  let operator := operator.coerced
  let value ← Outcome.ofExcept value.normal
  let (s, h) ← Outcome.ofExcept (s.takeHooks given)
  match h with
  | .set _ hooks =>
    validate hooks ⟨key.operand s.see, operator.operand s.see, value.operand s.see⟩
  | _ => pure ()
  return s.push ⟨h, .leaf key operator value⟩

def joinLast (j : Join) : List Slot → List Slot
  | [] => []
  | [slot] => [{ slot with join := j }]
  | slot :: rest => slot :: joinLast j rest

/-- Appends a slot; its join also becomes the one after the slot before it. -/
def append (s : Store) (owner : NodeId) (j : Join) (payload : NodeId) : Outcome Store := do
  let before := s.slots owner
  let name := (s.view payload).typeName
  Outcome.log .debug .condition s!"Appended {j.name} slot #{before.length} ({name})"
  return s.setSlots owner (joinLast j before ++ [⟨j, payload⟩])

/-- Nests a condition, which from then on has the hooks of its new owner, as has all below it. -/
def attach (s : Store) (owner : NodeId) (j : Join) (child : NodeId) : Outcome Store := do
  if s.reaches child owner then .fail (.misuse .cycle)
  else
    let s := s.rebind child (s.hooks owner)
    s.append owner j child

def appendExpression (s : Store) (owner : NodeId) (j : Join) (key operator value : Argument) :
    Outcome Store := do
  let (s, id) ← s.newExpression key operator value (s.hooks owner)
  s.append owner j id

end Store

structure Arguments where
  first : Argument
  operator : Option Argument
  value : Option Argument

namespace Arguments

def parameterNames : List String :=
  ["key_or_condition", "operator", "value"]

/-- Distributes positional and named arguments over the parameters. Each must be known and given at
most once, and the first parameter must be given. -/
def ofCall (positional : List Argument) (named : List (String × Argument)) :
    Except Fault Arguments :=
  let bad (why : String) : Except Fault Arguments := .error (.other .type why)
  let taken := parameterNames.take positional.length
  if parameterNames.length < positional.length then bad "too many positional arguments"
  else if named.any fun (n, _) => !parameterNames.contains n then
    bad "got an unexpected keyword argument"
  else if named.any fun (n, _) => taken.contains n then bad "got multiple values for argument"
  else
    let given := taken.zip positional ++ named
    let get (n : String) : Option Argument := (given.find? (·.1 == n)).map (·.2)
    match get "key_or_condition" with
    | none => bad "missing 1 required positional argument: 'key_or_condition'"
    | some first => .ok ⟨first, get "operator", get "value"⟩

end Arguments

namespace Store

def argumentText? : Argument → Option String
  | .value v => v.text?
  | _ => none

def argumentType (s : Store) (a : Argument) : String :=
  (a.operand s.see).typeName

def add (s : Store) (owner : NodeId) (j : Join) (a : Arguments) : Outcome Store :=
  let nested? : Option NodeId := match a.first with
    | .node id => if s.isBranch id then some id else none
    | _ => none
  match nested?, argumentText? a.first with
  | some child, _ =>
    if a.operator.isSome || a.value.isSome then .fail (.misuse .extraArguments)
    else s.attach owner j child
  | none, none => .fail (.misuse (.keyExpected (s.argumentType a.first)))
  | none, some key =>
    match a.operator, a.value with
    | some operator, some value =>
      if (argumentText? operator).isSome then s.appendExpression owner j a.first operator value
      else .fail (.misuse (.operatorExpected (s.argumentType operator)))
    | _, _ => .fail (.misuse (.incomplete key))

def wholeIndex? : Value → Option Int
  | .int n => some n
  | .bool b => some (cond b 1 0)
  | _ => none

/-- Checks that an index lies within `0 .. size`. One that cannot be compared with numbers, and a
fraction within the range, is of the wrong type. -/
def checkIndex (size : Nat) (index : Value) : Except Fault Nat :=
  match wholeIndex? index with
  | some n => if 0 ≤ n ∧ n < size then .ok n.toNat else .error (.slotIndex index)
  | none =>
    match index with
    | .nan _ => .error (.slotIndex index)
    | .float x =>
      match x.toRatio? with
      | some (n, d) =>
        if 0 ≤ n ∧ n < (size : Int) * d then
          .error (.other .type "list indices must be integers or slices, not float")
        else .error (.slotIndex index)
      | none => .error (.slotIndex index)
    | _ => .error (.other .type "'<=' not supported")

def setJoin (s : Store) (id : NodeId) (index join : Value) : Except Fault Store := do
  let j ← coerceJoin join
  let slots := s.slots id
  let i ← checkIndex slots.length index
  return s.setSlots id (slots.modify i fun slot => { slot with join := j })

end Store

end FilterTree
