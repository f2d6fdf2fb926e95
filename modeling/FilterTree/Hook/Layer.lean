import FilterTree.Hook.Set

/-! Layered lookup of hooks and the rendering of one expression. A hook is taken from the overrides
of the call, else from the node, else from the built-in ones. -/

namespace FilterTree

inductive Layer where
  | callSite | node | builtin | none
  deriving DecidableEq, Repr

def Layer.name : Layer → String
  | .callSite => "call_site"
  | .node => "node"
  | .builtin => "builtin"
  | .none => "none"

def operatorSymbol (name : String) : String :=
  ((Operator.ofName? name).map Operator.symbol).getD name

def coerceOperator (v : Value) : Value :=
  match v.text?.bind Operator.ofName? with
  | some o => .operator o
  | none => v

def coerceJoin (v : Value) : Except Fault Join :=
  match v.text?.bind Join.ofName? with
  | some j => .ok j
  | none => .error (.misuse (.unknownJoin v))

namespace Builtin

def renderKey : Hook :=
  .ofText "default_render_key" fun c => c.key.plainText

def renderValue : Hook :=
  .ofText "default_render_value" fun c => c.value.plainText

def renderOperator : Hook :=
  .ofText "default_render_operator" fun c => operatorSymbol <$> c.operator.plainText

def hooks : HookSet where
  validate := none
  renderKey := some renderKey
  renderValue := some renderValue
  renderOperator := some renderOperator
  renderExpression := none

end Builtin

def resolveHook (name : String) (overrides node : Hooks) : Except Fault (Option Hook × Layer) := do
  match ← overrides.lookup name with
  | some h => return (some h, .callSite)
  | none =>
    match ← node.lookup name with
    | some h => return (some h, .node)
    | none =>
      match (HookName.ofName? name).bind Builtin.hooks.get with
      | some h => return (some h, .builtin)
      | none => return (none, .none)

def runHook (n : HookName) (c : Context) (overrides node : Hooks) : Outcome Value := do
  let (hook, _) ← Outcome.ofExcept (resolveHook n.name overrides node)
  match hook with
  | some h => h.run c
  | none => .fail (.other .type "'NoneType' object is not callable")

def joinParts (parts : List Value) : Except Fault String :=
  match parts.mapM Value.text? with
  | some texts => .ok (String.join texts)
  | none => .error (.other .type "sequence item: expected str instance")

def renderParts (c : Context) (overrides node : Hooks) : Outcome Value := do
  let key ← runHook .renderKey c overrides node
  let operator ← runHook .renderOperator c overrides node
  let value ← runHook .renderValue c overrides node
  let text ← Outcome.ofExcept (joinParts [key, operator, value])
  return .text text

/-- Renders an expression. A hook for the whole of it decides if its result is neither empty nor
zero; otherwise the parts are rendered. -/
def renderExpression (c : Context) (overrides node : Hooks) : Outcome Value := do
  let (whole, layer) ←
    Outcome.ofExcept (resolveHook HookName.renderExpression.name overrides node)
  match whole with
  | none => renderParts c overrides node
  | some h =>
    let rendered ← h.run c
    if rendered.truthy then
      Outcome.log .debug .overrides
        s!"Expression {c.key.label} rendered by {layer.name} render_expression"
      return rendered
    else renderParts c overrides node

end FilterTree
