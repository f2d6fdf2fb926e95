import FilterTree.Proofs.Restore.Fresh
import FilterTree.Proofs.Restore.Acceptance

/-! Steps touch only what they name. After any history a step changes the slots of one condition and
the records of those that lead to it, and what a restoring makes is apart from all that was there. -/

namespace FilterTree.Store
open Relation

variable {s t : Store} {p : NodeId}

/-! ### Histories are grounded -/

theorem Does.body_leaf {a : Action} {d : Option Deed} (h : Does s a d t)
    (hadd : ∀ owner j positional named, a ≠ .add owner j positional named) {i : NodeId}
    {key operator value : Argument} (hi : t.body i = some (.leaf key operator value)) :
    s.body i = some (.leaf key operator value) := by
  cases h with
  | fails => exact hi
  | @creates u _ k hu =>
    rcases body_push hi with hi | ⟨-, hb⟩
    · simpa only [body, takeHooks_eq_ok hu] using hi
    · cases hb
  | assigns => rwa [body_setHooks] at hi
  | appends => exact absurd rfl (hadd _ _ _ _)
  | joins => exact body_leaf_of_setSlots hi

theorem Grounded.of_does {a : Action} {d : Option Deed} (hg : s.Grounded) (h : Does s a d t)
    (hsize : s.nodes.size ≤ t.nodes.size) (hadd : ∀ owner j positional named,
      a ≠ .add owner j positional named) : t.Grounded :=
  hg.of_leaves hsize fun hi => .inl (h.body_leaf hadd hi)

theorem Grounded.of_add {owner : NodeId} {j : Join} {positional : List Argument}
    {named : List (String × Argument)} (hg : s.Grounded)
    (hknown : Knows s (.add owner j positional named))
    (h : (s.perform (.add owner j positional named)).result = .ok t) : t.Grounded := by
  have hsize := Edits.size_le (edits_of_perform h)
  obtain ⟨ho, a, ha, h⟩ := perform_add_eq_ok h
  refine hg.of_leaves hsize fun {i key operator value} hi => ?_
  rcases add_eq_ok_of_texts h with ⟨child, -, -, h⟩ | ⟨k, o, w, rfl, -, -, h⟩
  · obtain ⟨-, rfl⟩ := attach_eq_ok h
    have hi := body_leaf_of_setSlots hi
    rw [body_rebind] at hi
    exact .inl hi
  · obtain ⟨u, g, v, hu, hv, rfl⟩ := appendExpression_eq_ok h
    rcases body_push (body_leaf_of_setSlots hi) with hi | ⟨-, hb⟩
    · exact .inl (by simpa only [body, takeHooks_eq_ok hu] using hi)
    · cases hb
      refine .inr ⟨⟨_, _, rfl, rfl⟩, fun n hn => ?_⟩
      rw [w.nodes_of_normal hv] at hn
      exact (hknown n (List.mem_flatMap.mpr ⟨w, mem_of_ofCall ha rfl, hn⟩)).trans_le hsize

theorem Grounded.after (hg : s.Grounded) {a : Action} (hknown : Knows s a) :
    (s.after a).Grounded := by
  have hsize := Edits.size_le (edits_after s a)
  cases a with
  | create given => exact hg.of_does (does_of_perform rfl) hsize nofun
  | setJoin id index join => exact hg.of_does (does_of_perform rfl) hsize nofun
  | assignHooks id h => exact hg.of_does (does_of_perform rfl) hsize nofun
  | add owner j positional named =>
    cases hr : (s.perform (.add owner j positional named)).result with
    | error e => rwa [after_eq_of_error hr]
    | ok t =>
      rw [after_eq_of_ok hr]
      exact hg.of_add hknown hr
  | restore encoded given format =>
    cases hr : (s.restore encoded given format).result with
    | error e => rwa [after_eq_of_error (Outcome.result_bind_of_error _ hr)]
    | ok q =>
      obtain ⟨t, id⟩ := q
      rw [after_restore hr] at hsize ⊢
      refine hg.of_leaves hsize fun hi => ?_
      rcases (planted_restore hr).2.leaves hi with hi | ⟨k, o, v, rfl, rfl, rfl⟩
      · exact .inl hi
      · exact .inr ⟨⟨k, o, rfl, rfl⟩, nofun⟩

theorem Grounded.foldl_after {actions : List Action} (hg : s.Grounded)
    (hknown : Along Knows s actions) : (actions.foldl Store.after s).Grounded := by
  induction actions generalizing s with
  | nil => exact hg
  | cons a rest ih => exact ih (hg.after hknown.1) hknown.2

theorem Along.imp {P Q : Store → Action → Prop} (h : ∀ s a, P s a → Q s a) :
    ∀ {s : Store} {actions : List Action}, Along P s actions → Along Q s actions
  | _, [], _ => trivial
  | _, _ :: _, hall => ⟨h _ _ hall.1, Along.imp h hall.2⟩

/-! ### Trees of values -/

/-- The check against cycles keeps the owner out of the nested tree. -/
theorem Does.nested {a : Action} {owner child : NodeId} {j : Join} (hs : s.Sound)
    (h : Does s a (some (.append owner j (.condition child))) t) :
    s.isBranch child = true ∧ ¬ReflTransGen s.Holds child owner := by
  cases h with
  | appends ho h =>
    cases h with
    | condition hc hr =>
      refine ⟨hc, fun hpath => ?_⟩
      rw [hs.reaches_iff.mpr hpath] at hr
      cases hr

def replayed : List Record :=
  [.condition .or [.expression .and "b" "lt" (.int 2)]]

end FilterTree.Store
