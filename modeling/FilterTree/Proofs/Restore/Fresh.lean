import Mathlib.Algebra.BigOperators.Fin
import Mathlib.Algebra.BigOperators.Group.Finset.Piecewise
import FilterTree.Proofs.Store.Frame

/-! What a restoring makes is new, and its own: each of its nodes stands in one slot of the whole
store, the root in none. So steps on a restored condition and steps on older ones do not meet until
one is put into the other. -/

namespace FilterTree.Store
open Relation

variable {s t : Store}

/-! ### How often a node is held -/

def timesHeld (s : Store) (i : NodeId) : Nat :=
  ∑ a ∈ Finset.range s.nodes.size, ((s.slots a).map (·.payload)).count i

theorem timesHeld_eq_sum (hsize : s.nodes.size ≤ t.nodes.size) (i : NodeId) :
    s.timesHeld i = ∑ a ∈ Finset.range t.nodes.size, ((s.slots a).map (·.payload)).count i := by
  refine Finset.sum_subset (Finset.range_mono hsize) fun a _ ha => ?_
  rw [slots_eq_nil_of_size_le (by simpa using ha)]
  rfl

theorem timesHeld_congr (hsize : s.nodes.size ≤ t.nodes.size)
    (h : ∀ a, (t.slots a).map (·.payload) = (s.slots a).map (·.payload)) (i : NodeId) :
    t.timesHeld i = s.timesHeld i := by
  rw [timesHeld_eq_sum hsize, timesHeld]
  exact Finset.sum_congr rfl fun a _ => by rw [h a]

theorem timesHeld_insert (owner payload : Nat) (hsize : s.nodes.size ≤ t.nodes.size)
    (ho : owner < t.nodes.size)
    (hown : (t.slots owner).map (·.payload) = (s.slots owner).map (·.payload) ++ [payload])
    (h : ∀ a ≠ owner, (t.slots a).map (·.payload) = (s.slots a).map (·.payload)) (i : Nat) :
    t.timesHeld i = s.timesHeld i + if payload = i then 1 else 0 := by
  have hterm (a : NodeId) : ((t.slots a).map (·.payload)).count i =
      ((s.slots a).map (·.payload)).count i +
        if a = owner then (if payload = i then 1 else 0) else 0 := by
    by_cases ha : a = owner
    · subst ha
      rw [hown, List.count_append, if_pos rfl, List.count_singleton]
      simp
    · rw [h a ha, if_neg ha, Nat.add_zero]
  rw [timesHeld_eq_sum hsize, timesHeld, Finset.sum_congr rfl fun a _ => hterm a,
    Finset.sum_add_distrib, Finset.sum_ite_eq', if_pos (Finset.mem_range.mpr ho)]

/-- New nodes have been put in, each into one slot, and expressions among them keep values only. -/
structure Planted (s t : Store) : Prop where
  size : s.nodes.size ≤ t.nodes.size
  leaves : ∀ {i : NodeId} {key operator value : Argument},
    t.body i = some (.leaf key operator value) →
      s.body i = some (.leaf key operator value) ∨
        ∃ k o v : Value, key = .value k ∧ operator = .value o ∧ value = .value v
  held : ∀ i : Nat, t.timesHeld i =
    s.timesHeld i + if s.nodes.size ≤ i ∧ i < t.nodes.size then 1 else 0

theorem Planted.refl (s : Store) : Planted s s where
  size := le_rfl
  leaves h := .inl h
  held i := by rw [if_neg (by omega), Nat.add_zero]

theorem Planted.trans {u : Store} (hst : Planted s t) (htu : Planted t u) : Planted s u where
  size := hst.size.trans htu.size
  leaves h := (htu.leaves h).elim hst.leaves .inr
  held i := by
    have := hst.size
    have := htu.size
    rw [htu.held, hst.held]
    split_ifs <;> omega

theorem map_payload_slots_keepLastJoin (s : Store) (id : NodeId) (records : List Record)
    (hid : s.isBranch id = true) (a : NodeId) :
    ((s.keepLastJoin id records).slots a).map (·.payload) = (s.slots a).map (·.payload) := by
  unfold Store.keepLastJoin
  split
  · rfl
  · by_cases ha : id = a
    · subst ha
      rw [slots_setSlots_self _ hid, map_payload_joinLast]
    · rw [slots_setSlots_of_ne _ ha]

theorem body_leaf_of_keepLastJoin {id i : NodeId} {records : List Record}
    {key operator value : Argument}
    (h : (s.keepLastJoin id records).body i = some (.leaf key operator value)) :
    s.body i = some (.leaf key operator value) := by
  unfold Store.keepLastJoin at h
  split at h
  · exact h
  · exact body_leaf_of_setSlots h

theorem body_leaf_of_newCondition {id i : NodeId} {given : Hooks}
    (h : s.newCondition given = .ok (t, id)) {key operator value : Argument}
    (hi : t.body i = some (.leaf key operator value)) :
    s.body i = some (.leaf key operator value) := by
  obtain ⟨u, k, hu, rfl, -⟩ := newCondition_eq_ok h
  rcases body_push hi with hi | ⟨-, hb⟩
  · simpa only [body, takeHooks_eq_ok hu] using hi
  · cases hb

theorem planted_expression {owner : NodeId} {j : Join} {key operator value : Value}
    (ho : s.isBranch owner = true)
    (h : (s.appendExpression owner j (.value key) (.value operator) (.value value)).result =
      .ok t) : Planted s t := by
  obtain ⟨u, k, v, hu, hv, rfl⟩ := appendExpression_eq_ok h
  have hou := isBranch_push_of_takeHooks hu
    ⟨k, .leaf (.value key) (Argument.coerced (.value operator)) v⟩ ho
  have hsize := size_push_of_takeHooks hu
    ⟨k, .leaf (.value key) (Argument.coerced (.value operator)) v⟩
  have hlt := lt_size_of_isBranch ho
  refine ⟨?_, fun hi => ?_, fun i => ?_⟩
  · rw [size_setSlots, hsize]
    exact Nat.le_succ _
  · rcases body_push (body_leaf_of_setSlots hi) with hi | ⟨-, hb⟩
    · exact .inl (by simpa only [body, takeHooks_eq_ok hu] using hi)
    · obtain ⟨-, -, rfl⟩ := Argument.normal_eq_ok_iff.mp hv
      cases hb
      exact .inr ⟨_, _, _, rfl, rfl, rfl⟩
  · rw [timesHeld_insert (s := s) owner s.nodes.size]
    · rw [size_setSlots, hsize]
      congr 1
      split_ifs <;> omega
    · rw [size_setSlots, hsize]
      exact Nat.le_succ _
    · rw [size_setSlots, hsize]
      exact Nat.lt_succ_of_lt hlt
    · rw [slots_setSlots_self _ hou, List.map_append, map_payload_joinLast]
      rfl
    · intro a ha
      rw [slots_setSlots_of_ne _ ha.symm, slots_push_leaf_of_takeHooks hu]

/-- A condition that has been filled, with the node that it is itself and that no slot holds yet. -/
structure PlantedBelow (s t : Store) : Prop where
  size : s.nodes.size < t.nodes.size
  leaves : ∀ {i : NodeId} {key operator value : Argument},
    t.body i = some (.leaf key operator value) →
      s.body i = some (.leaf key operator value) ∨
        ∃ k o v : Value, key = .value k ∧ operator = .value o ∧ value = .value v
  held : ∀ i : Nat, t.timesHeld i =
    s.timesHeld i + if s.nodes.size < i ∧ i < t.nodes.size then 1 else 0

theorem PlantedBelow.of_filled {u w : Store} {id : NodeId} {given : Hooks} {records : List Record}
    (hnew : s.newCondition given = .ok (u, id)) (hplant : Planted u w)
    (hw : w.isBranch id = true) : PlantedBelow s (w.keepLastJoin id records) := by
  obtain ⟨-, hsize, hslots⟩ := filled_newCondition hnew
  have hle := hplant.size
  have hkeep : (w.keepLastJoin id records).nodes.size = w.nodes.size :=
    size_keepLastJoin w id records
  refine ⟨by omega, fun hi => ?_, fun i => ?_⟩
  · rcases hplant.leaves (body_leaf_of_keepLastJoin hi) with hi | hvalues
    · exact .inl (body_leaf_of_newCondition hnew hi)
    · exact .inr hvalues
  · rw [timesHeld_congr (s := w) hkeep.ge (map_payload_slots_keepLastJoin w id records hw),
      hplant.held, timesHeld_congr (s := s) (by omega) fun a => by rw [hslots], hkeep, hsize]
    rfl

theorem PlantedBelow.attach {w : Store} {owner : NodeId} {j : Join} (h : PlantedBelow s w)
    (ho : w.isBranch owner = true) (ht : (w.attach owner j s.nodes.size).result = .ok t) :
    Planted s t := by
  obtain ⟨-, rfl⟩ := attach_eq_ok ht
  have hsize := h.size
  have hor := (isBranch_rebind w s.nodes.size owner (w.hooks owner)).trans ho
  refine ⟨?_, fun hi => ?_, fun i => ?_⟩
  · rw [size_setSlots, size_rebind]
    exact hsize.le
  · have hi := body_leaf_of_setSlots hi
    rw [body_rebind] at hi
    exact h.leaves hi
  · rw [timesHeld_insert (s := w) owner s.nodes.size, h.held]
    · rw [size_setSlots, size_rebind]
      split_ifs <;> omega
    · rw [size_setSlots, size_rebind]
    · rw [size_setSlots, size_rebind]
      exact lt_size_of_isBranch ho
    · rw [slots_setSlots_self _ hor, List.map_append, map_payload_joinLast]
      rfl
    · intro a ha
      rw [slots_setSlots_of_ne _ ha.symm, slots_rebind]

mutual

theorem planted_addRecords {owner : NodeId} {hooks : Hooks} {previous : Join} {s t : Store} :
    ∀ records, s.isBranch owner = true →
      (addRecords owner hooks previous records s).result = .ok t → Planted s t
  | [], _, h => by
    cases h
    exact .refl s
  | r :: rest, ho, h => by
    obtain ⟨u, hu, h⟩ := Outcome.bind_eq_ok_iff.mp h
    have hou : u.isBranch owner = true := (Edits.of_addRecord r ho hu).isBranch ho
    exact (planted_addRecord r ho hu).trans (planted_addRecords rest hou h)

theorem planted_addRecord {owner : NodeId} {hooks : Hooks} {previous : Join} {s t : Store} :
    ∀ record, s.isBranch owner = true →
      (addRecord owner hooks previous record s).result = .ok t → Planted s t
  | .expression _ _ _ _, ho, h => planted_expression ho h
  | .condition _ records, ho, h => by
    obtain ⟨⟨u, child⟩, hnew, h⟩ := Outcome.bind_eq_ok_iff.mp h
    rw [Outcome.result_ofExcept] at hnew
    obtain ⟨w, hw, h⟩ := Outcome.bind_eq_ok_iff.mp h
    have hplant := planted_addRecords records (Edits.of_newCondition hnew).2 hw
    obtain ⟨hedits, hchild, -⟩ := Edits.of_filled hnew hw
    obtain rfl := (filled_newCondition hnew).1
    exact (PlantedBelow.of_filled hnew hplant hchild).attach (hedits.isBranch ho) h

end

theorem planted_restore {encoded format : Value} {given : Hooks} {id : NodeId}
    (h : (s.restore encoded given format).result = .ok (t, id)) :
    id = s.nodes.size ∧ PlantedBelow s t := by
  obtain ⟨records, hooks, u, v, -, hnew, hadd, rfl⟩ := exists_filled_of_restore h
  exact ⟨(filled_newCondition hnew).1, .of_filled hnew
    (planted_addRecords records (Edits.of_newCondition hnew).2 hadd) (Edits.of_filled hnew hadd).2.1⟩

end FilterTree.Store
