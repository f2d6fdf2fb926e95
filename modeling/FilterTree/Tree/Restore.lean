import FilterTree.Encoding
import FilterTree.Tree.Store

/-! Rebuilding a condition from its records, by the same appends that a caller would make. -/

namespace FilterTree.Store

/-- Keeps the join of the last record on the last slot, where it never shows. -/
def keepLastJoin (s : Store) (id : NodeId) (records : List Record) : Store :=
  match records.getLast? with
  | none => s
  | some last => s.setSlots id (joinLast last.join (s.slots id))

mutual

/-- Adds the slots of records to a condition. Each is appended with the join of the record before
it, since that join stands between the two. -/
def addRecords (owner : NodeId) (hooks : Hooks) (previous : Join) :
    List Record → Store → Outcome Store
  | [], s => pure s
  | r :: rest, s => do
    let s ← addRecord owner hooks previous r s
    addRecords owner hooks r.join rest s

def addRecord (owner : NodeId) (hooks : Hooks) (previous : Join) : Record → Store → Outcome Store
  | .expression _ key operator value, s =>
    s.appendExpression owner previous (.value (.text key)) (.value (.text operator)) (.value value)
  | .condition _ records, s => do
    let (s, child) ← Outcome.ofExcept (s.newCondition hooks)
    let s ← addRecords child hooks .and records s
    (s.keepLastJoin child records).attach owner previous child

end

def replay (s : Store) (hooks : Hooks) (records : List Record) : Outcome (Store × NodeId) := do
  let (s, id) ← Outcome.ofExcept (s.newCondition hooks)
  let s ← addRecords id hooks .and records s
  return (s.keepLastJoin id records, id)

/-- A new condition from an encoding; every node of it gets the hooks. -/
def restore (s : Store) (encoded : Value) (given : Hooks) (format : Value) :
    Outcome (Store × NodeId) := do
  let records ← decode encoded format
  let (s, hooks) ← Outcome.ofExcept (s.takeHooks given)
  let (s, id) ← s.replay hooks records
  Outcome.log .debug .serializer s!"Restored condition with {records.length} top-level slot(s)"
  return (s, id)

end FilterTree.Store
