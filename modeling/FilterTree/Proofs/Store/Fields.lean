import FilterTree.Tree.Restore
import FilterTree.Proofs.Outcome

/-! What each operation on the store does to its nodes, and so to slots, hooks and kinds. Later
modules go by these lemmas alone. -/

namespace FilterTree.Store

/-! ### Nodes -/

theorem nodes_push (s : Store) (n : Node) (i : NodeId) :
    (s.push n).1.nodes[i]? = if i = s.nodes.size then some n else s.nodes[i]? :=
  Array.getElem?_push

theorem nodes_setSlots (s : Store) (id i : NodeId) (slots : List Slot) :
    (s.setSlots id slots).nodes[i]? =
      if id = i then s.nodes[i]?.map (fun n => { n with body := .branch slots }) else s.nodes[i]? :=
  Array.getElem?_modify

theorem nodes_setHooks (s : Store) (id i : NodeId) (h : Hooks) :
    (s.setHooks id h).nodes[i]? =
      if id = i then s.nodes[i]?.map (fun n => { n with hooks := h }) else s.nodes[i]? :=
  Array.getElem?_modify

theorem nodes_foldl_setHooks (ids : List NodeId) (s : Store) (h : Hooks) (i : NodeId) :
    (ids.foldl (fun s id => s.setHooks id h) s).nodes[i]? =
      if i ∈ ids then s.nodes[i]?.map (fun n => { n with hooks := h }) else s.nodes[i]? := by
  induction ids generalizing s with
  | nil => simp only [List.foldl_nil, List.not_mem_nil, if_false]
  | cons id ids ih =>
    rw [List.foldl_cons, ih, nodes_setHooks]
    by_cases hid : id = i
    · subst hid
      cases s.nodes[id]? <;> simp
    · have hne : i ≠ id := fun h => hid h.symm
      simp only [if_neg hid, List.mem_cons, hne, false_or]

theorem nodes_rebind (s : Store) (id i : NodeId) (h : Hooks) :
    (s.rebind id h).nodes[i]? =
      if i ∈ (s.view id).ids then s.nodes[i]?.map (fun n => { n with hooks := h })
      else s.nodes[i]? :=
  nodes_foldl_setHooks _ s h i

/-! ### Bodies -/

/-- What a node is apart from its hooks. -/
def body (s : Store) (i : NodeId) : Option Body :=
  s.nodes[i]?.map (·.body)

@[simp] theorem body_setHooks (s : Store) (id i : NodeId) (h : Hooks) :
    (s.setHooks id h).body i = s.body i := by
  unfold body
  rw [nodes_setHooks]
  split
  · rw [Option.map_map]
    rfl
  · rfl

@[simp] theorem body_rebind (s : Store) (id i : NodeId) (h : Hooks) :
    (s.rebind id h).body i = s.body i := by
  unfold body
  rw [nodes_rebind]
  split
  · rw [Option.map_map]
    rfl
  · rfl

theorem slots_eq_of_body {s t : Store} {i : NodeId} (h : t.body i = s.body i) :
    t.slots i = s.slots i := by
  unfold body at h
  unfold Store.slots
  rcases hs : s.nodes[i]? with _ | ⟨_, _ | _⟩ <;> rcases ht : t.nodes[i]? with _ | ⟨_, _ | _⟩ <;>
    simp_all

theorem isBranch_eq_of_body {s t : Store} {i : NodeId} (h : t.body i = s.body i) :
    t.isBranch i = s.isBranch i := by
  unfold body at h
  unfold isBranch
  rcases hs : s.nodes[i]? with _ | ⟨_, _ | _⟩ <;> rcases ht : t.nodes[i]? with _ | ⟨_, _ | _⟩ <;>
    simp_all

/-! ### Sizes -/

@[simp] theorem size_push (s : Store) (n : Node) : (s.push n).1.nodes.size = s.nodes.size + 1 :=
  Array.size_push ..

@[simp] theorem size_setSlots (s : Store) (id : NodeId) (slots : List Slot) :
    (s.setSlots id slots).nodes.size = s.nodes.size :=
  Array.size_modify

@[simp] theorem size_setHooks (s : Store) (id : NodeId) (h : Hooks) :
    (s.setHooks id h).nodes.size = s.nodes.size :=
  Array.size_modify

@[simp] theorem size_rebind (s : Store) (id : NodeId) (h : Hooks) :
    (s.rebind id h).nodes.size = s.nodes.size := by
  unfold rebind
  generalize (s.view id).ids = ids
  induction ids generalizing s with
  | nil => rfl
  | cons i ids ih => rw [List.foldl_cons, ih, size_setHooks]

/-! ### Kinds -/

theorem isBranch_iff {s : Store} {id : NodeId} :
    s.isBranch id = true ↔ ∃ h slots, s.nodes[id]? = some ⟨h, .branch slots⟩ := by
  unfold isBranch
  split
  · next h slots hn => simp [hn]
  · next hn =>
    simp only [Bool.false_eq_true, false_iff]
    rintro ⟨h, slots, hs⟩
    exact hn h slots hs

theorem lt_size_of_isBranch {s : Store} {id : NodeId} (h : s.isBranch id = true) :
    id < s.nodes.size := by
  obtain ⟨_, _, hn⟩ := isBranch_iff.mp h
  exact (Array.getElem?_eq_some_iff.mp hn).1

theorem slots_eq_of_nodes {s : Store} {id : NodeId} {h : Hooks} {slots : List Slot}
    (hn : s.nodes[id]? = some ⟨h, .branch slots⟩) : s.slots id = slots := by
  simp only [Store.slots, hn]

theorem hooks_eq_of_nodes {s : Store} {id : NodeId} {n : Node} (hn : s.nodes[id]? = some n) :
    s.hooks id = n.hooks := by
  simp only [Store.hooks, hn]

theorem nodes_eq_of_isBranch {s : Store} {id : NodeId} (h : s.isBranch id = true) :
    s.nodes[id]? = some ⟨s.hooks id, .branch (s.slots id)⟩ := by
  obtain ⟨_, _, hn⟩ := isBranch_iff.mp h
  rw [hn, hooks_eq_of_nodes hn, slots_eq_of_nodes hn]

theorem slots_eq_nil_of_size_le {s : Store} {id : NodeId} (h : s.nodes.size ≤ id) :
    s.slots id = [] := by
  simp only [Store.slots, Array.getElem?_eq_none h]

theorem isBranch_push {s : Store} {id : NodeId} (n : Node) (h : s.isBranch id = true) :
    (s.push n).1.isBranch id = true := by
  have hne : id ≠ s.nodes.size := Nat.ne_of_lt (lt_size_of_isBranch h)
  simpa only [isBranch, nodes_push, if_neg hne] using h

theorem isBranch_push_self (s : Store) (h : Hooks) (slots : List Slot) :
    (s.push ⟨h, .branch slots⟩).1.isBranch s.nodes.size = true := by
  simp only [isBranch, nodes_push, if_true]

theorem isBranch_setSlots {s : Store} {id : NodeId} (i : NodeId) (slots : List Slot)
    (h : s.isBranch id = true) : (s.setSlots i slots).isBranch id = true := by
  obtain ⟨k, own, hn⟩ := isBranch_iff.mp h
  rw [isBranch_iff, nodes_setSlots, hn]
  split
  · exact ⟨k, slots, rfl⟩
  · exact ⟨k, own, rfl⟩

theorem isBranch_setHooks (s : Store) (i id : NodeId) (h : Hooks) :
    (s.setHooks i h).isBranch id = s.isBranch id :=
  isBranch_eq_of_body (body_setHooks s i id h)

theorem isBranch_rebind (s : Store) (i id : NodeId) (h : Hooks) :
    (s.rebind i h).isBranch id = s.isBranch id :=
  isBranch_eq_of_body (body_rebind s i id h)

/-! ### Slots -/

theorem slots_eq_of_nodes_eq {s t : Store} {i : NodeId} (h : t.nodes[i]? = s.nodes[i]?) :
    t.slots i = s.slots i := by
  simp only [Store.slots, h]

theorem slots_push_of_ne {s : Store} {id : NodeId} (n : Node) (h : id ≠ s.nodes.size) :
    (s.push n).1.slots id = s.slots id := by
  simp only [Store.slots, nodes_push, if_neg h]

theorem slots_push_branch_nil (s : Store) (h : Hooks) (i : NodeId) :
    (s.push ⟨h, .branch []⟩).1.slots i = s.slots i := by
  by_cases hi : i = s.nodes.size
  · subst hi
    rw [slots_eq_nil_of_size_le (Nat.le_refl _)]
    exact slots_eq_of_nodes (by rw [nodes_push, if_pos rfl])
  · exact slots_push_of_ne _ hi

theorem slots_push_leaf (s : Store) (h : Hooks) (key operator value : Argument) (i : NodeId) :
    (s.push ⟨h, .leaf key operator value⟩).1.slots i = s.slots i := by
  by_cases hi : i = s.nodes.size
  · subst hi
    rw [slots_eq_nil_of_size_le (Nat.le_refl _)]
    simp only [Store.slots, nodes_push, if_true]
  · exact slots_push_of_ne _ hi

theorem slots_setSlots_self {s : Store} {id : NodeId} (slots : List Slot)
    (h : s.isBranch id = true) : (s.setSlots id slots).slots id = slots := by
  apply slots_eq_of_nodes (h := s.hooks id)
  rw [nodes_setSlots, nodes_eq_of_isBranch h, if_pos rfl]
  rfl

theorem slots_setSlots_of_ne {s : Store} {id i : NodeId} (slots : List Slot) (h : id ≠ i) :
    (s.setSlots id slots).slots i = s.slots i := by
  simp only [Store.slots, nodes_setSlots, if_neg h]

@[simp] theorem slots_setHooks (s : Store) (id i : NodeId) (h : Hooks) :
    (s.setHooks id h).slots i = s.slots i :=
  slots_eq_of_body (body_setHooks s id i h)

@[simp] theorem slots_rebind (s : Store) (id i : NodeId) (h : Hooks) :
    (s.rebind id h).slots i = s.slots i :=
  slots_eq_of_body (body_rebind s id i h)

/-! ### Hooks -/

@[simp] theorem hooks_setSlots (s : Store) (id i : NodeId) (slots : List Slot) :
    (s.setSlots id slots).hooks i = s.hooks i := by
  unfold Store.hooks
  rw [nodes_setSlots]
  by_cases hi : id = i
  · rw [if_pos hi]
    cases s.nodes[i]? <;> rfl
  · rw [if_neg hi]

theorem hooks_eq_of_nodes_eq {s t : Store} {i : NodeId} (h : t.nodes[i]? = s.nodes[i]?) :
    t.hooks i = s.hooks i := by
  simp only [Store.hooks, h]

/-! ### Joins -/

theorem joinLast_eq_modify (j : Join) (slots : List Slot) :
    joinLast j slots = slots.modify (slots.length - 1) fun slot => { slot with join := j } := by
  induction slots with
  | nil => rfl
  | cons slot rest ih =>
    cases rest with
    | nil => rfl
    | cons next rest => simpa [joinLast] using ih

theorem map_payload_modify (slots : List Slot) (i : Nat) (j : Join) :
    (slots.modify i fun slot => { slot with join := j }).map (·.payload) =
      slots.map (·.payload) := by
  induction slots generalizing i with
  | nil => cases i <;> rfl
  | cons slot rest ih =>
    cases i with
    | zero => rfl
    | succ i => simpa using ih i

theorem map_payload_joinLast (j : Join) (slots : List Slot) :
    (joinLast j slots).map (·.payload) = slots.map (·.payload) := by
  rw [joinLast_eq_modify, map_payload_modify]

theorem joinLast_append (j : Join) (slots : List Slot) (slot : Slot) :
    joinLast j (slots ++ [slot]) = slots ++ [{ slot with join := j }] := by
  induction slots with
  | nil => rfl
  | cons first rest ih =>
    cases rest with
    | nil => rfl
    | cons next rest => simpa [joinLast] using ih

/-! ### Hooks taken by a new node -/

theorem takeHooks_eq_ok {s t : Store} {given h : Hooks} (ht : s.takeHooks given = .ok (t, h)) :
    t.nodes = s.nodes := by
  obtain ⟨⟨identity, own⟩, -, hp⟩ := except_bind_eq_ok_iff.mp ht
  cases hp
  rfl

theorem takeHooks_set (s : Store) (identity : Nat) (h : HookSet) :
    s.takeHooks (.set identity h) =
      .ok ({ s with nextIdentity := max s.nextIdentity (identity + 1) }, .set identity h) := rfl

section
variable {s t : Store} {given h : Hooks}

theorem slots_of_takeHooks (ht : s.takeHooks given = .ok (t, h)) (i : NodeId) :
    t.slots i = s.slots i := by
  simp only [Store.slots, takeHooks_eq_ok ht]

theorem isBranch_of_takeHooks (ht : s.takeHooks given = .ok (t, h)) (i : NodeId) :
    t.isBranch i = s.isBranch i := by
  simp only [isBranch, takeHooks_eq_ok ht]

theorem hooks_of_takeHooks (ht : s.takeHooks given = .ok (t, h)) (i : NodeId) :
    t.hooks i = s.hooks i := by
  simp only [Store.hooks, takeHooks_eq_ok ht]

theorem size_push_of_takeHooks (ht : s.takeHooks given = .ok (t, h)) (n : Node) :
    (t.push n).1.nodes.size = s.nodes.size + 1 := by
  rw [size_push, takeHooks_eq_ok ht]

theorem isBranch_push_of_takeHooks (ht : s.takeHooks given = .ok (t, h)) {id : NodeId} (n : Node)
    (hid : s.isBranch id = true) : (t.push n).1.isBranch id = true :=
  isBranch_push n ((isBranch_of_takeHooks ht id).trans hid)

theorem slots_push_leaf_of_takeHooks (ht : s.takeHooks given = .ok (t, h))
    (key operator value : Argument) (i : NodeId) :
    (t.push ⟨h, .leaf key operator value⟩).1.slots i = s.slots i := by
  rw [slots_push_leaf, slots_of_takeHooks ht]

theorem slots_push_branch_of_takeHooks (ht : s.takeHooks given = .ok (t, h)) (i : NodeId) :
    (t.push ⟨h, .branch []⟩).1.slots i = s.slots i := by
  rw [slots_push_branch_nil, slots_of_takeHooks ht]

end

end FilterTree.Store
