import FilterTree.Proofs.Restore.Replay
import FilterTree.Proofs.Store.Cycle

/-! A restored condition is one that a caller has built: a replay is a run of elementary calls, and
so is every history. -/

namespace FilterTree.Store
open Record

theorem after_eq_of_ok {s t : Store} {a : Action} (h : (s.perform a).result = .ok t) :
    s.after a = t := by
  simp only [after, h]

theorem after_restore {s t : Store} {id : NodeId} {encoded format : Value} {given : Hooks}
    (h : (s.restore encoded given format).result = .ok (t, id)) :
    s.after (.restore encoded given format) = t :=
  after_eq_of_ok (Outcome.result_bind_of_ok _ h)

theorem after_eq_of_error {s : Store} {a : Action} {e : Fault}
    (h : (s.perform a).result = .error e) : s.after a = s := by
  simp only [after, h]

/-! ### Calls that succeed -/

theorem perform_add_eq_ok {s t : Store} {owner : NodeId} {j : Join} {positional : List Argument}
    {named : List (String × Argument)}
    (h : (s.perform (.add owner j positional named)).result = .ok t) :
    s.isBranch owner = true ∧ ∃ a, Arguments.ofCall positional named = .ok a ∧
      (s.add owner j a).result = .ok t := by
  rw [perform] at h
  split at h
  · next ho =>
    obtain ⟨a, ha, h⟩ := Outcome.bind_eq_ok_iff.mp h
    rw [Outcome.result_ofExcept] at ha
    exact ⟨ho, a, ha, h⟩
  · simp [noMethod] at h

/-! ### The calls of a replay -/

def keepCalls (id : NodeId) (records : List Record) : List Action :=
  match records.getLast? with
  | none => []
  | some last => [.setJoin id (.int (records.length - 1)) (.join last.join)]

mutual

def recordsCalls (hooks : Hooks) (owner : NodeId) :
    NodeId → Join → List Record → List Action
  | _, _, [] => []
  | next, previous, r :: rest =>
    recordCalls hooks owner next previous r ++
      recordsCalls hooks owner (next + r.count) r.join rest

def recordCalls (hooks : Hooks) (owner : NodeId) : NodeId → Join → Record → List Action
  | _, previous, .expression _ key operator v =>
    [.add owner previous [.value (.text key), .value (.text operator), .value v] []]
  | next, previous, .condition _ records =>
    .create hooks :: recordsCalls hooks next (next + 1) .and records ++
      keepCalls next records ++ [.add owner previous [.node next] []]

end

def replayCalls (hooks : Hooks) (id : NodeId) (records : List Record) : List Action :=
  .create hooks :: recordsCalls hooks id (id + 1) .and records ++ keepCalls id records

/-! ### What adding records does to slots -/

structure Filled (owner : NodeId) (more fresh : Nat) (s t : Store) : Prop where
  size : t.nodes.size = s.nodes.size + fresh
  length : (t.slots owner).length = (s.slots owner).length + more
  frame : ∀ i < s.nodes.size, i ≠ owner → t.slots i = s.slots i

theorem length_joinLast (j : Join) (slots : List Slot) :
    (joinLast j slots).length = slots.length := by
  rw [joinLast_eq_modify, List.length_modify]

theorem Filled.trans {owner : NodeId} {m n k l : Nat} {s t u : Store}
    (hst : Filled owner m k s t) (htu : Filled owner n l t u) :
    Filled owner (m + n) (k + l) s u where
  size := by rw [htu.size, hst.size, Nat.add_assoc]
  length := by rw [htu.length, hst.length, Nat.add_assoc]
  frame i hi hne := by
    have hit : i < t.nodes.size := by
      rw [hst.size]
      exact Nat.lt_add_right k hi
    rw [htu.frame i hit hne, hst.frame i hi hne]

theorem filled_append {s t : Store} {owner payload : NodeId} {fresh : Nat} (j : Join)
    (ho : t.isBranch owner = true) (hsize : t.nodes.size = s.nodes.size + fresh)
    (hframe : ∀ i < s.nodes.size, i ≠ owner → t.slots i = s.slots i) :
    Filled owner 1 fresh s
      (t.setSlots owner (joinLast j (s.slots owner) ++ [⟨j, payload⟩])) where
  size := by rw [size_setSlots, hsize]
  length := by
    rw [slots_setSlots_self _ ho, List.length_append, length_joinLast]
    rfl
  frame i hi hne := by rw [slots_setSlots_of_ne _ hne.symm, hframe i hi hne]

theorem filled_appendExpression {s t : Store} {owner : NodeId} {j : Join}
    {key operator value : Argument} (ho : s.isBranch owner = true)
    (h : (s.appendExpression owner j key operator value).result = .ok t) :
    Filled owner 1 1 s t := by
  obtain ⟨u, k, v, hu, -, rfl⟩ := appendExpression_eq_ok h
  have hou := isBranch_push_of_takeHooks hu ⟨k, .leaf key operator.coerced v⟩ ho
  exact filled_append j hou (size_push_of_takeHooks hu _) fun i _ _ =>
    slots_push_leaf_of_takeHooks hu _ _ _ i

theorem filled_newCondition {s t : Store} {id : NodeId} {given : Hooks}
    (h : s.newCondition given = .ok (t, id)) :
    id = s.nodes.size ∧ t.nodes.size = s.nodes.size + 1 ∧ ∀ i, t.slots i = s.slots i := by
  obtain ⟨u, k, hu, rfl, rfl⟩ := newCondition_eq_ok h
  exact ⟨rfl, size_push_of_takeHooks hu _, slots_push_branch_of_takeHooks hu⟩

theorem Filled.length_of_newCondition {s t u : Store} {id : NodeId} {given : Hooks} {n k : Nat}
    (hfill : Filled id n k t u) (h : s.newCondition given = .ok (t, id)) :
    (u.slots id).length = n := by
  obtain ⟨rfl, -, hslots⟩ := filled_newCondition h
  rw [hfill.length, hslots, slots_eq_nil_of_size_le le_rfl, List.length_nil, Nat.zero_add]

theorem size_keepLastJoin (s : Store) (id : NodeId) (records : List Record) :
    (s.keepLastJoin id records).nodes.size = s.nodes.size := by
  unfold Store.keepLastJoin
  split
  · rfl
  · exact size_setSlots ..

theorem slots_keepLastJoin_of_ne (s : Store) {id i : NodeId} (records : List Record)
    (h : id ≠ i) : (s.keepLastJoin id records).slots i = s.slots i := by
  unfold Store.keepLastJoin
  split
  · rfl
  · exact slots_setSlots_of_ne _ h

/-! ### Elementary calls that succeed -/

theorem result_perform_expression {s : Store} {owner : NodeId} (ho : s.isBranch owner = true)
    (j : Join) (key operator : String) (v : Value) :
    (s.perform (.add owner j [.value (.text key), .value (.text operator), .value v] [])).result =
      (s.appendExpression owner j (.value (.text key)) (.value (.text operator))
        (.value v)).result := by
  have ha : Arguments.ofCall [.value (.text key), .value (.text operator), .value v] [] =
      .ok ⟨.value (.text key), some (.value (.text operator)), some (.value v)⟩ := rfl
  rw [perform, if_pos ho, ha, Outcome.result_bind_of_ok _ rfl]
  rfl

theorem after_create {s t : Store} {given : Hooks} {id : NodeId}
    (h : s.newCondition given = .ok (t, id)) : s.after (.create given) = t := by
  apply after_eq_of_ok
  rw [perform, Outcome.result_bind_of_ok _ ((Outcome.result_ofExcept _).trans h)]
  rfl

theorem setJoin_getLast {s : Store} {id : NodeId} {records : List Record} {last : Record}
    (hlast : records.getLast? = some last) (hlen : (s.slots id).length = records.length) :
    s.setJoin id (.int (records.length - 1)) (.join last.join) =
      .ok (s.setSlots id (joinLast last.join (s.slots id))) := by
  have hne : records ≠ [] := by
    rintro rfl
    simp at hlast
  have hpos : 0 < records.length := List.length_pos_iff.mpr hne
  have hindex : checkIndex (s.slots id).length (.int (records.length - 1)) =
      .ok ((s.slots id).length - 1) := by
    simp only [checkIndex, wholeIndex?, hlen]
    rw [if_pos (by omega)]
    congr 1
    omega
  have hjoin : coerceJoin (.join last.join) = .ok last.join := by
    cases last.join <;> rfl
  rw [joinLast_eq_modify]
  simp only [setJoin, hjoin, hindex, bind, Except.bind, pure, Except.pure]

theorem foldl_keepCalls {s : Store} {id : NodeId} {records : List Record}
    (hid : s.isBranch id = true) (hlen : (s.slots id).length = records.length) :
    (keepCalls id records).foldl after s = s.keepLastJoin id records := by
  unfold keepCalls Store.keepLastJoin
  cases hlast : records.getLast? with
  | none => rfl
  | some last =>
    apply after_eq_of_ok
    rw [perform, if_pos hid, setJoin_getLast hlast hlen]
    rfl

/-! ### A replay as a run of calls -/

theorem foldl_replayCalls_of_filled {hooks : Hooks} {s u w : Store} {id : NodeId}
    {records : List Record} (hnew : s.newCondition hooks = .ok (u, id))
    (hadd : (addRecords id hooks .and records u).result = .ok w)
    (hcalls : (recordsCalls hooks id u.nodes.size .and records).foldl after u = w)
    (hfill : Filled id records.length (countAll records) u w) :
    (replayCalls hooks id records).foldl after s = w.keepLastJoin id records ∧
      (w.keepLastJoin id records).nodes.size = s.nodes.size + (countAll records + 1) ∧
      ∀ i < s.nodes.size, (w.keepLastJoin id records).slots i = s.slots i := by
  have hlen := hfill.length_of_newCondition hnew
  obtain ⟨-, hw, -⟩ := Edits.of_filled hnew hadd
  obtain ⟨rfl, hsize, hslots⟩ := filled_newCondition hnew
  refine ⟨?_, ?_, fun i hi => ?_⟩
  · rw [replayCalls, List.foldl_append, List.foldl_cons, after_create hnew, ← hsize, hcalls]
    exact foldl_keepCalls hw hlen
  · rw [size_keepLastJoin, hfill.size, hsize, Nat.add_assoc, Nat.add_comm 1]
  · have hiu : i < u.nodes.size := by
      rw [hsize]
      exact Nat.lt_succ_of_lt hi
    rw [slots_keepLastJoin_of_ne _ _ (Nat.ne_of_gt hi), hfill.frame i hiu (Nat.ne_of_lt hi),
      hslots]

mutual

theorem foldl_recordsCalls {hooks : Hooks} {owner : NodeId} {previous : Join} {s t : Store} :
    ∀ records, s.isBranch owner = true →
      (addRecords owner hooks previous records s).result = .ok t →
      (recordsCalls hooks owner s.nodes.size previous records).foldl after s = t ∧
        Filled owner records.length (countAll records) s t
  | [], _, h => by
    cases h
    exact ⟨rfl, rfl, rfl, fun _ _ _ => rfl⟩
  | r :: rest, ho, h => by
    obtain ⟨u, hu, h⟩ := Outcome.bind_eq_ok_iff.mp h
    obtain ⟨hfirst, hone⟩ := foldl_recordCalls r ho hu
    have hou : u.isBranch owner = true := (Edits.of_addRecord r ho hu).isBranch ho
    obtain ⟨hothers, hmore⟩ := foldl_recordsCalls rest hou h
    have hfill := hone.trans hmore
    rw [Nat.add_comm 1] at hfill
    refine ⟨?_, hfill⟩
    rw [recordsCalls, List.foldl_append, hfirst, ← hone.size, hothers]

theorem foldl_recordCalls {hooks : Hooks} {owner : NodeId} {previous : Join} {s t : Store} :
    ∀ record, s.isBranch owner = true →
      (addRecord owner hooks previous record s).result = .ok t →
      (recordCalls hooks owner s.nodes.size previous record).foldl after s = t ∧
        Filled owner 1 record.count s t
  | .expression _ key operator v, ho, h => by
    refine ⟨after_eq_of_ok ?_, filled_appendExpression ho h⟩
    rw [result_perform_expression ho, ← h]
    rfl
  | .condition j records, ho, h => by
    obtain ⟨⟨u, child⟩, hnew, h⟩ := Outcome.bind_eq_ok_iff.mp h
    rw [Outcome.result_ofExcept] at hnew
    obtain ⟨w, hadd, h⟩ := Outcome.bind_eq_ok_iff.mp h
    obtain ⟨hcalls, hfill⟩ := foldl_recordsCalls records (Edits.of_newCondition hnew).2 hadd
    obtain ⟨hreplay, hsize, hslots⟩ := foldl_replayCalls_of_filled hnew hadd hcalls hfill
    obtain ⟨hedits, -, hchild⟩ := Edits.of_filled hnew hadd
    obtain rfl := (filled_newCondition hnew).1
    have howner := hedits.isBranch ho
    refine ⟨?_, ?_⟩
    · have hcall : recordCalls hooks owner s.nodes.size previous (.condition j records) =
          replayCalls hooks s.nodes.size records ++
            [.add owner previous [.node s.nodes.size] []] := rfl
      rw [hcall, List.foldl_append, hreplay]
      exact after_eq_of_ok ((result_perform_nest howner hchild previous).trans h)
    · obtain ⟨-, rfl⟩ := attach_eq_ok h
      rw [hslots owner (lt_size_of_isBranch ho)]
      refine filled_append previous ((isBranch_rebind _ _ _ _).trans howner)
        (by rw [size_rebind, hsize, count]) fun i hi _ => ?_
      rw [slots_rebind, hslots i hi]

end

theorem foldl_replayCalls {s u t : Store} {given hooks : Hooks} {records : List Record}
    {id : NodeId} (hu : s.takeHooks given = .ok (u, hooks))
    (h : (u.replay hooks records).result = .ok (t, id)) :
    (replayCalls hooks s.nodes.size records).foldl after s = t := by
  obtain ⟨w, x, hnew, hadd, rfl⟩ := exists_filled_of_replay h
  rw [← newCondition_of_takeHooks hu] at hnew
  obtain ⟨hcalls, hfill⟩ := foldl_recordsCalls records (Edits.of_newCondition hnew).2 hadd
  rw [← (filled_newCondition hnew).1]
  exact (foldl_replayCalls_of_filled hnew hadd hcalls hfill).1

/-! ### Histories of elementary calls -/

namespace Action

def isRestore : Action → Bool
  | .restore _ _ _ => true
  | _ => false

def isAssignment : Action → Bool
  | .assignHooks _ _ => true
  | _ => false

def isBuilding : Action → Bool
  | .create _ | .add _ _ _ _ | .setJoin _ _ _ => true
  | .assignHooks _ _ | .restore _ _ _ => false

end Action

/-- The elementary calls that a call amounts to: none for a restoring that fails. -/
def calls (s : Store) : Action → List Action
  | .restore encoded given format =>
    match (s.restore encoded given format).result, (decode encoded format).result,
        s.takeHooks given with
    | .ok _, .ok records, .ok (_, hooks) => replayCalls hooks s.nodes.size records
    | _, _, _ => []
  | a => [a]

def elementary (s : Store) : List Action → List Action
  | [] => []
  | a :: rest => s.calls a ++ (s.after a).elementary rest

theorem foldl_calls (s : Store) (a : Action) : (s.calls a).foldl after s = s.after a := by
  cases a with
  | create | add | setJoin | assignHooks => rfl
  | restore encoded given format =>
    rw [calls]
    cases hr : (s.restore encoded given format).result with
    | error e =>
      have hafter : s.after (.restore encoded given format) = s :=
        after_eq_of_error (Outcome.result_bind_of_error _ hr)
      rw [hafter]
      rfl
    | ok p =>
      have hafter : s.after (.restore encoded given format) = p.1 := by
        apply after_eq_of_ok
        rw [perform, Outcome.result_bind_of_ok _ hr]
        rfl
      obtain ⟨records, hdec, hr⟩ := Outcome.bind_eq_ok_iff.mp hr
      obtain ⟨⟨u, hooks⟩, hu, hr⟩ := Outcome.bind_eq_ok_iff.mp hr
      obtain ⟨⟨t, id⟩, ht, hr⟩ := Outcome.bind_eq_ok_iff.mp hr
      rw [Outcome.result_ofExcept] at hu
      cases hr
      simp only [hdec, hu]
      rw [hafter, foldl_replayCalls hu ht]

theorem foldl_elementary (actions : List Action) (s : Store) :
    (s.elementary actions).foldl after s = actions.foldl after s := by
  induction actions generalizing s with
  | nil => rfl
  | cons a rest ih => rw [elementary, List.foldl_append, foldl_calls, List.foldl_cons, ih]

theorem run_elementary (actions : List Action) :
    run (empty.elementary actions) = run actions :=
  foldl_elementary actions empty

theorem isBuilding_of_mem_keepCalls {id : NodeId} {records : List Record} {a : Action}
    (h : a ∈ keepCalls id records) : a.isBuilding = true := by
  unfold keepCalls at h
  split at h
  · simp at h
  · rw [List.mem_singleton.mp h]
    rfl

mutual

theorem isBuilding_of_mem_recordsCalls {hooks : Hooks} {owner : NodeId} {a : Action} :
    ∀ records next previous, a ∈ recordsCalls hooks owner next previous records →
      a.isBuilding = true
  | [], _, _, h => by simp [recordsCalls] at h
  | r :: rest, next, previous, h => by
    rw [recordsCalls] at h
    rcases List.mem_append.mp h with h | h
    · exact isBuilding_of_mem_recordCalls r next previous h
    · exact isBuilding_of_mem_recordsCalls rest _ _ h

theorem isBuilding_of_mem_recordCalls {hooks : Hooks} {owner : NodeId} {a : Action} :
    ∀ record next previous, a ∈ recordCalls hooks owner next previous record →
      a.isBuilding = true
  | .expression _ _ _ _, _, _, h => by
    rw [List.mem_singleton.mp h]
    rfl
  | .condition _ records, next, previous, h => by
    rw [recordCalls] at h
    rcases List.mem_append.mp h with h | h
    · rcases List.mem_append.mp h with h | h
      · rcases List.mem_cons.mp h with rfl | h
        · rfl
        · exact isBuilding_of_mem_recordsCalls records _ _ h
      · exact isBuilding_of_mem_keepCalls h
    · rw [List.mem_singleton.mp h]
      rfl

end

theorem mem_calls {s : Store} {a b : Action} (h : b ∈ s.calls a) :
    b.isBuilding = true ∨ b = a ∧ a.isAssignment = true := by
  cases a with
  | create | add | setJoin =>
    rw [List.mem_singleton.mp h]
    exact .inl rfl
  | assignHooks => exact .inr ⟨List.mem_singleton.mp h, rfl⟩
  | restore encoded given format =>
    rw [calls] at h
    split at h
    · rcases List.mem_append.mp h with h | h
      · rcases List.mem_cons.mp h with rfl | h
        · exact .inl rfl
        · exact .inl (isBuilding_of_mem_recordsCalls _ _ _ h)
      · exact .inl (isBuilding_of_mem_keepCalls h)
    · simp at h

theorem mem_elementary {actions : List Action} {s : Store} {b : Action}
    (h : b ∈ s.elementary actions) :
    b.isBuilding = true ∨ b ∈ actions ∧ b.isAssignment = true := by
  induction actions generalizing s with
  | nil => simp [elementary] at h
  | cons a rest ih =>
    rw [elementary] at h
    rcases List.mem_append.mp h with h | h
    · rcases mem_calls h with hb | ⟨rfl, hassign⟩
      · exact .inl hb
      · exact .inr ⟨List.mem_cons_self, hassign⟩
    · exact (ih h).imp_right fun ⟨hmem, hassign⟩ => ⟨List.mem_cons_of_mem _ hmem, hassign⟩

theorem isRestore_of_mem_elementary {actions : List Action} {s : Store} {b : Action}
    (h : b ∈ s.elementary actions) : b.isRestore = false := by
  rcases mem_elementary h with h | ⟨-, h⟩ <;> cases b <;> first | rfl | cases h

theorem isAssignment_of_mem_elementary {actions : List Action} {s : Store} {b : Action}
    (hactions : ∀ a ∈ actions, a.isAssignment = false) (h : b ∈ s.elementary actions) :
    b.isAssignment = false := by
  rcases mem_elementary h with h | ⟨h, -⟩
  · cases b <;> first | rfl | cases h
  · exact hactions b h

end FilterTree.Store
