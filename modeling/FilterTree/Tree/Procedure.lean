import FilterTree.Tree.Restore

/-! Calls on the store as they are carried out, check by check and write by write. A procedure has
one store at hand, and what it has written stays written when it fails later on. -/

namespace FilterTree

def Procedure (α : Type) := Store → Store × Outcome α

namespace Procedure
variable {α β : Type}

protected def pure (a : α) : Procedure α :=
  fun s => (s, Outcome.pure a)

/-- What would follow a failure is not done, and what came before it is not undone. -/
protected def bind (x : Procedure α) (f : α → Procedure β) : Procedure β := fun s =>
  match x s with
  | (t, ⟨events, .error e⟩) => (t, ⟨events, .error e⟩)
  | (t, ⟨events, .ok a⟩) =>
    let (u, r) := f a t
    (u, ⟨events ++ r.events, r.result⟩)

instance : Monad Procedure where
  pure := Procedure.pure
  bind := Procedure.bind

def outcome (p : Procedure α) (s : Store) : Outcome (Store × α) :=
  ⟨(p s).2.events, (p s).2.result.map ((p s).1, ·)⟩

/-! ### Reading and writing -/

def look (f : Store → α) : Procedure α :=
  fun s => (s, Outcome.pure (f s))

def call (x : Outcome α) : Procedure α :=
  fun s => (s, x)

def check (x : Except Fault α) : Procedure α :=
  call (Outcome.ofExcept x)

def write (f : Store → Store) : Procedure Unit :=
  fun s => (f s, Outcome.pure ())

def push (n : Node) : Procedure NodeId :=
  fun s => ((s.push n).1, Outcome.pure (s.push n).2)

def takeHooks (given : Hooks) : Procedure Hooks := fun s =>
  match s.takeHooks given with
  | .ok (t, h) => (t, Outcome.pure h)
  | .error e => (s, Outcome.fail e)

/-! ### Calls -/

def newCondition (given : Hooks) : Procedure NodeId := do
  let h ← takeHooks given
  push ⟨h, .branch []⟩

/-- A new expression is not in the store before it has passed its validation. -/
def newExpression (key operator value : Argument) (given : Hooks) : Procedure NodeId := do
  let value ← check value.normal
  let h ← takeHooks given
  match h with
  | .set _ hooks => do
    let c ← look fun s => ⟨key.operand s.see, operator.coerced.operand s.see, value.operand s.see⟩
    call (Store.validate hooks c)
  | _ => pure ()
  push ⟨h, .leaf key operator.coerced value⟩

def append (owner : NodeId) (j : Join) (payload : NodeId) : Procedure Unit := do
  let before ← look (·.slots owner)
  let name ← look fun s => (s.view payload).typeName
  write fun s => s.setSlots owner (Store.joinLast j (s.slots owner))
  write fun s => s.setSlots owner (s.slots owner ++ [⟨j, payload⟩])
  call (Outcome.log .debug .condition s!"Appended {j.name} slot #{before.length} ({name})")

def attach (owner : NodeId) (j : Join) (child : NodeId) : Procedure Unit := do
  let cyclic ← look (·.reaches child owner)
  if cyclic then call (.fail (.misuse .cycle))
  else
    write fun s => s.rebind child (s.hooks owner)
    append owner j child

def appendExpression (owner : NodeId) (j : Join) (key operator value : Argument) :
    Procedure Unit := do
  let given ← look (·.hooks owner)
  let id ← newExpression key operator value given
  append owner j id

def condition? (s : Store) : Argument → Option NodeId
  | .node id => if s.isBranch id then some id else none
  | _ => none

def add (owner : NodeId) (j : Join) (a : Arguments) : Procedure Unit := do
  let nested? ← look fun s => condition? s a.first
  match nested?, Store.argumentText? a.first with
  | some child, _ =>
    if a.operator.isSome || a.value.isSome then call (.fail (.misuse .extraArguments))
    else attach owner j child
  | none, none => do
    let name ← look (·.argumentType a.first)
    call (.fail (.misuse (.keyExpected name)))
  | none, some key =>
    match a.operator, a.value with
    | some operator, some value =>
      if (Store.argumentText? operator).isSome then appendExpression owner j a.first operator value
      else do
        let name ← look (·.argumentType operator)
        call (.fail (.misuse (.operatorExpected name)))
    | _, _ => call (.fail (.misuse (.incomplete key)))

def setJoin (id : NodeId) (index join : Value) : Procedure Unit := do
  let j ← check (coerceJoin join)
  let slots ← look (·.slots id)
  let i ← check (Store.checkIndex slots.length index)
  write fun s => s.setSlots id ((s.slots id).modify i fun slot => { slot with join := j })

/-! ### Restoring -/

def keepLastJoin (id : NodeId) (records : List Record) : Procedure Unit :=
  match records.getLast? with
  | none => pure ()
  | some last => setJoin id (.int (records.length - 1)) (.join last.join)

mutual

def addRecords (owner : NodeId) (hooks : Hooks) (previous : Join) :
    List Record → Procedure Unit
  | [] => pure ()
  | r :: rest => do
    addRecord owner hooks previous r
    addRecords owner hooks r.join rest

def addRecord (owner : NodeId) (hooks : Hooks) (previous : Join) : Record → Procedure Unit
  | .expression _ key operator value =>
    appendExpression owner previous (.value (.text key)) (.value (.text operator)) (.value value)
  | .condition _ records => do
    let child ← newCondition hooks
    addRecords child hooks .and records
    keepLastJoin child records
    attach owner previous child

end

def replay (hooks : Hooks) (records : List Record) : Procedure NodeId := do
  let id ← newCondition hooks
  addRecords id hooks .and records
  keepLastJoin id records
  return id

def restore (encoded : Value) (given : Hooks) (format : Value) : Procedure NodeId := do
  let records ← call (decode encoded format)
  let hooks ← takeHooks given
  let id ← replay hooks records
  call (Outcome.log .debug .serializer
    s!"Restored condition with {records.length} top-level slot(s)")
  return id

end Procedure

end FilterTree
