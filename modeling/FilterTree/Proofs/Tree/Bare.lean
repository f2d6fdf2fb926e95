import FilterTree.Tree.Basic
import FilterTree.Hook.Catalogue
import FilterTree.Proofs.Outcome

/-! Rendering where nodes have no hooks of their own. Then only the overrides and the built-in
hooks count. -/

namespace FilterTree

def Hooks.IsBare (h : Hooks) : Prop :=
  ∀ n : HookName, h.lookup n.name = .ok Option.none

theorem Hooks.isBare_none : Hooks.IsBare .none :=
  fun _ => rfl

theorem Hooks.isBare_empty (identity : Nat) : (Hooks.set identity .empty).IsBare := by
  intro n
  rw [lookup_set]
  cases n <;> rfl

theorem get_builtin_of_name (n : HookName) :
    (HookName.ofName? n.name).bind Builtin.hooks.get = Builtin.hooks.get n := by
  cases n <;> rfl

theorem resolveHook_of_bare {node : Hooks} (hnode : node.IsBare) (n : HookName) (identity : Nat)
    (h : HookSet) : resolveHook n.name (.set identity h) node =
      match h.get n, Builtin.hooks.get n with
      | some hook, _ => .ok (some hook, .callSite)
      | none, some hook => .ok (some hook, .builtin)
      | none, none => .ok (none, .none) := by
  unfold resolveHook
  rw [Hooks.lookup_set, hnode n, get_builtin_of_name]
  cases h.get n with
  | some hook => rfl
  | none => cases Builtin.hooks.get n <;> rfl

theorem runHook_of_bare {node : Hooks} (hnode : node.IsBare) (n : HookName) (identity : Nat)
    {h : HookSet} {hook : Hook} (hhook : (h.get n).or (Builtin.hooks.get n) = some hook)
    (c : Context) : runHook n c (.set identity h) node = hook.run c := by
  unfold runHook
  rw [resolveHook_of_bare hnode]
  cases hown : h.get n with
  | some own =>
    rw [hown] at hhook
    cases hhook
    rfl
  | none =>
    rw [hown, Option.none_or] at hhook
    rw [hhook]
    rfl

theorem renderExpression_congr {a b : Hooks} (ha : a.IsBare) (hb : b.IsBare) (c : Context)
    (overrides : Hooks) : renderExpression c overrides a = renderExpression c overrides b := by
  have hresolve (n : HookName) :
      resolveHook n.name overrides a = resolveHook n.name overrides b := by
    unfold resolveHook
    rw [ha n, hb n]
  have hrun (n : HookName) : runHook n c overrides a = runHook n c overrides b := by
    unfold runHook
    rw [hresolve n]
  have hparts : renderParts c overrides a = renderParts c overrides b := by
    unfold renderParts
    rw [hrun .renderKey, hrun .renderOperator, hrun .renderValue]
  unfold renderExpression
  rw [hresolve .renderExpression, hparts]

theorem renderExpression_of_bare {node : Hooks} (hnode : node.IsBare) (identity : Nat)
    {h : HookSet} (hwhole : h.renderExpression = none) (c : Context) :
    renderExpression c (.set identity h) node = renderParts c (.set identity h) node := by
  have hget : h.get .renderExpression = none := hwhole
  unfold renderExpression
  rw [resolveHook_of_bare hnode, hget]
  rfl

end FilterTree
