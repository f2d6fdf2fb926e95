import FilterTree.Proofs.Store.History
import FilterTree.Proofs.Store.Path

/-! No history makes a cycle of slots: the check against cycles comes before each that is added. -/

namespace FilterTree.Store
open Relation

theorem not_transGen_of_insert {α : Type} {r r' : α → α → Prop} {o c : α}
    (hr : ∀ a b, r' a b → r a b ∨ a = o ∧ b = c) (hac : ∀ a, ¬ TransGen r a a)
    (hco : ¬ ReflTransGen r c o) (a : α) : ¬ TransGen r' a a := by
  -- a path without the new edge, or one that does without it up to `o` and again from `c` on
  have key : ∀ b, TransGen r' a b →
      TransGen r a b ∨ ReflTransGen r a o ∧ ReflTransGen r c b := by
    intro b hab
    induction hab with
    | single h =>
      rcases hr _ _ h with h | ⟨rfl, rfl⟩
      · exact .inl (.single h)
      · exact .inr ⟨.refl, .refl⟩
    | tail _ h ih =>
      rcases hr _ _ h with h | ⟨rfl, rfl⟩
      · exact ih.imp (·.tail h) fun ⟨hao, hcb⟩ => ⟨hao, hcb.tail h⟩
      · exact .inr ⟨ih.elim TransGen.to_reflTransGen And.left, .refl⟩
  intro haa
  rcases key a haa with h | ⟨hao, hca⟩
  · exact hac a h
  · exact hco (hca.trans hao)

theorem Sound.of_holds_eq {s t : Store} (hs : s.Sound) (h : t.Holds = s.Holds)
    (hsize : s.nodes.size ≤ t.nodes.size) : t.Sound where
  lt_size hab := (hs.lt_size (h ▸ hab)).trans_le hsize
  acyclic := h ▸ hs.acyclic

/-- A store stays sound when a slot is added that does not lead back to its owner. -/
theorem Sound.of_insert {s t : Store} (hs : s.Sound) {owner child : NodeId}
    (h : ∀ a b, t.Holds a b → s.Holds a b ∨ a = owner ∧ b = child)
    (hsize : s.nodes.size ≤ t.nodes.size) (hchild : child < t.nodes.size)
    (hback : ¬ ReflTransGen s.Holds child owner) : t.Sound where
  lt_size hab := by
    rcases h _ _ hab with hab | ⟨-, rfl⟩
    · exact (hs.lt_size hab).trans_le hsize
    · exact hchild
  acyclic := not_transGen_of_insert h hs.acyclic hback

theorem holds_append {s t : Store} {owner child : NodeId} {j : Join}
    (hslots : ∀ i, t.slots i = s.slots i) (ho : t.isBranch owner = true) {a b : NodeId}
    (h : (t.setSlots owner (joinLast j (s.slots owner) ++ [⟨j, child⟩])).Holds a b) :
    s.Holds a b ∨ a = owner ∧ b = child := by
  by_cases ha : owner = a
  · subst ha
    rw [Holds, slots_setSlots_self _ ho, List.map_append, map_payload_joinLast] at h
    rcases List.mem_append.mp h with h | h
    · exact .inl h
    · exact .inr ⟨rfl, by simpa using h⟩
  · rw [Holds, slots_setSlots_of_ne _ ha, hslots] at h
    exact .inl h

theorem holds_modify_join {s : Store} {id : NodeId} (hid : s.isBranch id = true) (i : Nat)
    (j : Join) :
    (s.setSlots id ((s.slots id).modify i fun slot => { slot with join := j })).Holds =
      s.Holds := by
  refine holds_congr fun k => ?_
  by_cases hk : id = k
  · subst hk
    rw [slots_setSlots_self _ hid, map_payload_modify]
  · rw [slots_setSlots_of_ne _ hk]

theorem sound_empty : empty.Sound where
  lt_size h := absurd (lt_size_of_holds h) (Nat.not_lt_zero _)
  acyclic a h := by
    obtain ⟨b, hab, -⟩ := TransGen.head'_iff.mp h
    exact absurd (lt_size_of_holds hab) (Nat.not_lt_zero _)

theorem eq_of_reflTransGen_of_slots_nil {s : Store} {a b : NodeId} (ha : s.slots a = [])
    (h : ReflTransGen s.Holds a b) : b = a := by
  rcases ReflTransGen.cases_head h with rfl | ⟨c, hc, -⟩
  · rfl
  · simp [Holds, ha] at hc

theorem Sound.of_edit {s t : Store} (hs : s.Sound) (he : Edit s t) : t.Sound := by
  cases he with
  | takeHooks ht =>
    have hsize := congrArg Array.size (takeHooks_eq_ok ht)
    exact hs.of_holds_eq (holds_congr fun i => by rw [slots_of_takeHooks ht]) hsize.ge
  | condition h =>
    refine hs.of_holds_eq (holds_congr fun i => by rw [slots_push_branch_nil]) ?_
    rw [size_push]
    exact Nat.le_succ _
  | @leaf u owner h j key operator value ho hu =>
    have hn := takeHooks_eq_ok hu
    have hslots := slots_push_leaf_of_takeHooks hu key operator value
    have hou := isBranch_push_of_takeHooks hu ⟨h, .leaf key operator value⟩ ho
    -- a fresh leaf holds nothing, so that no path starts from it
    refine hs.of_insert (fun a b hab => holds_append hslots hou hab) ?_ ?_ fun hback => ?_
    · simp [hn]
    · simp [hn]
    · have := eq_of_reflTransGen_of_slots_nil (slots_eq_nil_of_size_le le_rfl) hback
      exact (lt_size_of_isBranch ho).ne this
  | @attach owner child j ho hc hr =>
    have hor := (isBranch_rebind s child owner (s.hooks owner)).trans ho
    refine hs.of_insert (fun a b hab => holds_append (slots_rebind s child · _) hor hab) ?_ ?_ ?_
    · simp
    · simpa using lt_size_of_isBranch hc
    -- here the check is what keeps the new slot from leading back
    · rw [← hs.reaches_iff, hr]
      exact Bool.false_ne_true
  | @join id i j hid =>
    exact hs.of_holds_eq (holds_modify_join hid i j) (size_setSlots ..).ge
  | hooks id h => exact hs.of_holds_eq (holds_congr fun i => by rw [slots_setHooks]) (by simp)

theorem result_perform_nest {s : Store} {owner child : NodeId} (ho : s.isBranch owner = true)
    (hc : s.isBranch child = true) (j : Join) :
    (s.perform (.add owner j [.node child] [])).result = (s.attach owner j child).result := by
  have ha : Arguments.ofCall [.node child] [] = .ok ⟨.node child, none, none⟩ := rfl
  rw [perform, if_pos ho, ha, Outcome.result_bind_of_ok _ rfl, add_nested hc]
  rfl

end FilterTree.Store
