import FilterTree.Tree.Basic
import FilterTree.Yaml.Sketch

/-! The record form laid out for writing. A leaf may stand in several slots, each of which has a
copy of its value. -/

namespace FilterTree

def Context.sketch (leaf : NodeId) (path : List Nat) (c : Context) : Except Fault Yaml.Sketch := do
  let key ← Yaml.Sketch.ofScalar path c.key.asValue
  let value ← Yaml.Sketch.ofValue leaf path [] c.value.asValue
  return .mapping
    [(.ofText "key", key), (.ofText "operator", .ofText c.operator.plain),
      (.ofText "value", value)] none

namespace Tree

mutual

def sketch (path : List Nat) : Tree → Except Fault Yaml.Sketch
  | .leaf id _ c => c.sketch id path
  | .branch _ _ slots => (sketchOfSlots path 0 slots).map (.sequence · none)

def sketchOfSlots (path : List Nat) (index : Nat) :
    List (Join × Tree) → Except Fault (List Yaml.Sketch)
  | [] => .ok []
  | (j, t) :: rest => do
    let payload ← sketch (index :: path) t
    let others ← sketchOfSlots path (index + 1) rest
    return .mapping
      [(.ofText "joinOperator", .ofText j.name), (.ofText t.fieldName, payload)] none :: others

end

end Tree

end FilterTree
