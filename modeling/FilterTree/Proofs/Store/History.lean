import FilterTree.Proofs.Store.Edit

/-! Histories: runs of calls, in any order, on any of the conditions there are. A call that fails
leaves the store as it was. -/

namespace FilterTree.Store
open Relation

/-- What a caller can do. Conditions and expressions go by their numbers. -/
inductive Action where
  | create (given : Hooks)
  | add (owner : NodeId) (join : Join) (positional : List Argument)
      (named : List (String × Argument))
  | setJoin (id : NodeId) (index join : Value)
  | assignHooks (id : NodeId) (h : Hooks)
  | restore (encoded : Value) (given : Hooks) (format : Value)

def noMethod {α : Type} : Outcome α :=
  .fail (.other .attribute "no such attribute")

def perform (s : Store) : Action → Outcome Store
  | .create given => do
    let (t, _) ← Outcome.ofExcept (s.newCondition given)
    return t
  | .add owner j positional named =>
    if s.isBranch owner then do
      let a ← Outcome.ofExcept (Arguments.ofCall positional named)
      s.add owner j a
    else noMethod
  | .setJoin id index join =>
    if s.isBranch id then Outcome.ofExcept (s.setJoin id index join) else noMethod
  | .assignHooks id h => return s.setHooks id h
  | .restore encoded given format => do
    let (t, _) ← s.restore encoded given format
    return t

def after (s : Store) (a : Action) : Store :=
  match (s.perform a).result with
  | .ok t => t
  | .error _ => s

def run (actions : List Action) : Store :=
  actions.foldl after empty

theorem edits_of_perform {s t : Store} {a : Action} (h : (s.perform a).result = .ok t) :
    Edits s t := by
  cases a with
  | create given =>
    obtain ⟨⟨u, id⟩, hu, h⟩ := Outcome.bind_eq_ok_iff.mp h
    rw [Outcome.result_ofExcept] at hu
    cases h
    exact (Edits.of_newCondition hu).1
  | add owner j positional named =>
    rw [perform] at h
    split at h
    · next ho =>
      obtain ⟨a, -, h⟩ := Outcome.bind_eq_ok_iff.mp h
      exact .single (.of_add ho h)
    · simp [noMethod] at h
  | setJoin id index join =>
    rw [perform] at h
    split at h
    · next hid =>
      rw [Outcome.result_ofExcept] at h
      exact .single (.of_setJoin hid h)
    · simp [noMethod] at h
  | assignHooks id k =>
    cases h
    exact .single (.hooks id k)
  | restore encoded given format =>
    obtain ⟨⟨u, id⟩, hu, h⟩ := Outcome.bind_eq_ok_iff.mp h
    cases h
    exact Edits.of_restore hu

theorem edits_after (s : Store) (a : Action) : Edits s (s.after a) := by
  unfold after
  split
  · next h => exact edits_of_perform h
  · exact .refl

theorem edits_foldl_after (actions : List Action) (s : Store) :
    Edits s (actions.foldl after s) := by
  induction actions generalizing s with
  | nil => exact .refl
  | cons a actions ih => exact (edits_after s a).trans (ih (s.after a))

end FilterTree.Store
