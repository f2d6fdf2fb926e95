import FilterTree.Hook.Layer
import FilterTree.Value.Normal

/-! Condition trees as they are seen: leaves are single comparisons, branches are conditions whose
slots carry the join that stands after them. The join of the last slot is kept but never shows in
the text. -/

namespace FilterTree

abbrev NodeId := Nat

/-- A leaf's context holds the operator as a member where it is known, and a normal value. -/
inductive Tree where
  | leaf (id : NodeId) (hooks : Hooks) (context : Context)
  | branch (id : NodeId) (hooks : Hooks) (slots : List (Join × Tree))

instance : Inhabited Tree := ⟨.branch 0 .none []⟩

namespace Tree

def id : Tree → NodeId
  | .leaf id _ _ => id
  | .branch id _ _ => id

def hooks : Tree → Hooks
  | .leaf _ h _ => h
  | .branch _ h _ => h

def isBranch : Tree → Bool
  | .leaf _ _ _ => false
  | .branch _ _ _ => true

def typeName : Tree → String
  | .leaf _ _ _ => "Expression"
  | .branch _ _ _ => "Condition"

def fieldName : Tree → String
  | .leaf _ _ _ => "expression"
  | .branch _ _ _ => "condition"

def slots : Tree → List (Join × Tree)
  | .leaf _ _ _ => []
  | .branch _ _ slots => slots

mutual

def AllLeaves (P : Hooks → Context → Prop) : Tree → Prop
  | .leaf _ h c => P h c
  | .branch _ _ slots => AllLeavesOfSlots P slots

def AllLeavesOfSlots (P : Hooks → Context → Prop) : List (Join × Tree) → Prop
  | [] => True
  | (_, t) :: rest => AllLeaves P t ∧ AllLeavesOfSlots P rest

end

section
variable {P : Hooks → Context → Prop} [∀ h c, Decidable (P h c)]

mutual

def decideAllLeaves : ∀ t : Tree, Decidable (t.AllLeaves P)
  | .leaf _ h c => inferInstanceAs (Decidable (P h c))
  | .branch _ _ slots => decideAllLeavesOfSlots slots

def decideAllLeavesOfSlots : ∀ slots : List (Join × Tree), Decidable (AllLeavesOfSlots P slots)
  | [] => .isTrue trivial
  | (_, t) :: rest =>
    haveI := decideAllLeaves t
    haveI := decideAllLeavesOfSlots rest
    inferInstanceAs (Decidable (_ ∧ _))

end

instance (t : Tree) : Decidable (t.AllLeaves P) :=
  decideAllLeaves t

end

mutual

def ids : Tree → List NodeId
  | .leaf id _ _ => [id]
  | .branch id _ slots => id :: idsOfSlots slots

def idsOfSlots : List (Join × Tree) → List NodeId
  | [] => []
  | (_, t) :: rest => ids t ++ idsOfSlots rest

end

mutual

def record : Tree → Value
  | .leaf _ _ c => c.toMap
  | .branch _ _ slots => .list (recordOfSlots slots)

def recordOfSlots : List (Join × Tree) → List Value
  | [] => []
  | (j, t) :: rest =>
    .map [(.text "joinOperator", .text j.name), (.text t.fieldName, record t)] :: recordOfSlots rest

end

mutual

/-- Equality of record forms. One leaf is always equal to itself, whatever it holds. -/
def same : Tree → Tree → Bool
  | .leaf i _ c, b => match b with
    | .leaf k _ d =>
      i == k || (c.key.same d.key && c.operator.plain == d.operator.plain && c.value.same d.value)
    | .branch _ _ _ => false
  | .branch _ _ xs, b => match b with
    | .branch _ _ ys => sameSlots xs ys
    | .leaf _ _ _ => false

def sameSlots : List (Join × Tree) → List (Join × Tree) → Bool
  | [], ys => ys.isEmpty
  | (j, t) :: xs, ys => match ys with
    | (k, u) :: ys => j == k && same t u && sameSlots xs ys
    | [] => false

end

def equal (a b : Tree) : Except Fault Bool :=
  if a.record.isEndless || b.record.isEndless then .error .endless else .ok (same a b)

/-- Puts the joins between the parts; the last one stands after nothing. -/
def joinSlots : List (Join × String) → String
  | [] => ""
  | [(_, s)] => s
  | (j, s) :: rest => s ++ " " ++ j.name ++ " " ++ joinSlots rest

def joinRendered (parts : List (Join × Value)) : Except Fault String :=
  match parts.mapM fun (j, v) => v.text?.map (j, ·) with
  | some texts => .ok (joinSlots texts)
  | none => .error (.other .type "sequence item: expected str instance")

mutual

def renderWith (overrides : Hooks) : Tree → Outcome Value
  | .leaf _ hooks c => renderExpression c overrides hooks
  | .branch _ _ slots => do
    let parts ← renderSlots overrides slots
    let text ← Outcome.ofExcept (joinRendered parts)
    return .text text

def renderSlots (overrides : Hooks) : List (Join × Tree) → Outcome (List (Join × Value))
  | [] => pure []
  | (j, t) :: rest => do
    let v ← renderWith overrides t
    let shown := match t with
      | .leaf _ _ _ => v
      | .branch _ _ _ => .text ("(" ++ v.plain ++ ")")
    let others ← renderSlots overrides rest
    return (j, shown) :: others

end

/-- Rendering with call-site hooks, which an empty condition does not even look at. -/
def render (overrides : Hooks) (t : Tree) : Outcome Value :=
  match t with
  | .branch _ _ [] => pure (.text "")
  | t =>
    match overrides with
    | .none => t.renderWith .none
    | given => do
      let (identity, h) ← Outcome.ofExcept (given.resolve 0)
      t.renderWith (.set identity h)

def text (t : Tree) : Outcome String := do
  let v ← t.render .none
  match v.text? with
  | some s => return s
  | none => .fail (.other .type "the rendered form is no string")

def display (t : Tree) : Outcome String :=
  match t with
  | .leaf _ _ c =>
    do
      let key ← c.key.displayText
      let operator ← c.operator.plainText
      let value ← c.value.displayText
      return s!"Expression({key}, {quoted operator}, {value})"
  | t => do
    let v ← t.render .none
    return s!"Condition({v.display})"

def asOperand (t : Tree) : Operand :=
  .object (some t.id) t.typeName t.text t.display t.record

/-- A tree that cannot be seen to its end, because it is a part of an expression somewhere inside
itself. -/
def unending (t : Tree) : Operand :=
  .object (some t.id) t.typeName (.fail .endless) (.fail .endless) (.loop .null)

end Tree

end FilterTree
