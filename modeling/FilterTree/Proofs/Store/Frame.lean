import FilterTree.Proofs.Store.Argument
import FilterTree.Proofs.Store.Entry
import FilterTree.Proofs.Store.Joins
import FilterTree.Proofs.Store.Atomic

/-! What a step leaves as it is. A record shows the nodes that one is led to by slots, and by values
that are conditions or expressions themselves; a step away from all of these does not change it. -/

namespace FilterTree.Store
open Relation

/-! ### What a node leads to -/

/-- A node leads to what it holds, an expression also to the nodes in its value. -/
def Leads (s : Store) (a b : NodeId) : Prop :=
  s.Holds a b ∨ ∃ key operator value, s.body a = some (.leaf key operator value) ∧ b ∈ value.nodes

structure Grounded (s : Store) : Prop where
  texts : ∀ {i : NodeId} {key operator value : Argument},
    s.body i = some (.leaf key operator value) →
      ∃ k o : Value, key = .value k ∧ operator = .value o
  known : ∀ {i : NodeId} {key operator value : Argument},
    s.body i = some (.leaf key operator value) → ∀ n ∈ value.nodes, n < s.nodes.size

variable {s t : Store} {p : NodeId}

theorem Sound.lt_size_of_leads (hs : s.Sound) (hg : s.Grounded) {a b : NodeId}
    (h : s.Leads a b) : b < s.nodes.size := by
  rcases h with h | ⟨key, operator, value, h, hb⟩
  · exact hs.lt_size h
  · exact hg.known h b hb

theorem lt_size_of_region (hs : s.Sound) (hg : s.Grounded) (hp : p < s.nodes.size) {y : NodeId}
    (h : ReflTransGen s.Leads p y) : y < s.nodes.size := by
  cases h with
  | refl => exact hp
  | tail _ h => exact hs.lt_size_of_leads hg h

/-- Nothing below a node leads back to itself. -/
def Ends (s : Store) (p : NodeId) : Prop :=
  ∀ y, ReflTransGen s.Leads p y → ¬TransGen s.Leads y y

theorem Ends.length_lt (hs : s.Sound) (hg : s.Grounded) (hp : p < s.nodes.size) (h : s.Ends p)
    {path : List NodeId} (hc : (p :: path).IsChain s.Leads) : path.length < s.nodes.size := by
  have hreached : ∀ y ∈ p :: path, ReflTransGen s.Leads p y := by
    have hpairs := (List.isChain_iff_pairwise.mp (hc.imp fun _ _ => TransGen.single))
    intro y hy
    rcases List.mem_cons.mp hy with rfl | hy
    · exact .refl
    · exact ((List.pairwise_cons.mp hpairs).1 y hy).to_reflTransGen
  have hnodup : (p :: path).Nodup := by
    have hpairs := (List.isChain_iff_pairwise.mp (hc.imp fun _ _ => TransGen.single))
    refine (hpairs.imp_of_mem fun {a b} ha _ hab => ?_)
    rintro rfl
    exact h a (hreached a ha) hab
  have hsub : p :: path ⊆ List.range s.nodes.size := fun y hy =>
    List.mem_range.mpr (lt_size_of_region hs hg hp (hreached y hy))
  have hle := (hnodup.subperm hsub).length_le
  rw [List.length_range, List.length_cons] at hle
  exact hle

def Action.target? : Action → Option NodeId
  | .add owner _ _ _ => some owner
  | .setJoin id _ _ => some id
  | .assignHooks id _ => some id
  | .create _ | .restore _ _ _ => none

theorem Does.hooks {a : Action} {d : Option Deed} (hs : s.Sound) (h : Does s a d t) {y : NodeId}
    (hy : y < s.nodes.size) : t.hooks y = s.hooks y ∨
      (∃ k, a = .assignHooks y k ∧ t.hooks y = k) ∨
      ∃ owner j child, d = some (.append owner j (.condition child)) ∧
        ReflTransGen s.Holds child y ∧ t.hooks y = s.hooks owner := by
  cases h with
  | fails => exact .inl rfl
  | creates hu => exact .inl (hooks_push_of_takeHooks hu _ y hy)
  | assigns id k =>
    by_cases hid : id = y
    · subst hid
      refine .inr (.inl ⟨k, rfl, ?_⟩)
      rw [Store.hooks, nodes_setHooks, if_pos rfl, Array.getElem?_eq_getElem hy]
      rfl
    · exact .inl (hooks_eq_of_nodes_eq (by rw [nodes_setHooks, if_neg hid]))
  | @appends owner j _ _ what _ ho h =>
    cases h with
    | @condition child hc hr =>
      rw [hooks_setSlots, hooks_rebind hy]
      split
      · next hmem => exact .inr (.inr ⟨owner, j, child, rfl, hs.mem_ids_view_iff.mp hmem, rfl⟩)
      · exact .inl rfl
    | expression hu hv =>
      rw [hooks_setSlots]
      exact .inl (hooks_push_of_takeHooks hu _ y hy)
  | joins => exact .inl (hooks_setSlots ..)

theorem Edit.size_le (h : Edit s t) : s.nodes.size ≤ t.nodes.size := by
  cases h with
  | takeHooks ht => rw [takeHooks_eq_ok ht]
  | condition k => simp
  | leaf j key operator value ho hu => simp [takeHooks_eq_ok hu]
  | attach => simp
  | join => simp
  | hooks => simp

theorem Edits.size_le (h : Edits s t) : s.nodes.size ≤ t.nodes.size := by
  induction h with
  | refl => exact le_rfl
  | tail _ h ih => exact ih.trans h.size_le

/-- Each step of a history is as `Q` says of it and the store before it. -/
def Along (Q : Store → Action → Prop) : Store → List Action → Prop
  | _, [] => True
  | s, a :: rest => Q s a ∧ Along Q (s.after a) rest

def Knows (s : Store) : Action → Prop
  | .add _ _ positional named =>
    ∀ n ∈ (positional ++ named.map (·.2)).flatMap Argument.nodes, n < s.nodes.size
  | _ => True

theorem mem_of_ofCall {positional : List Argument} {named : List (String × Argument)}
    {a : Arguments} (h : Arguments.ofCall positional named = .ok a) {value : Argument}
    (hv : a.value = some value) : value ∈ positional ++ named.map (·.2) := by
  unfold Arguments.ofCall at h
  dsimp only at h
  split at h
  · cases h
  split at h
  · cases h
  split at h
  · cases h
  split at h
  · cases h
  · cases h
    obtain ⟨⟨name, v⟩, hfind, rfl⟩ := Option.map_eq_some_iff.mp hv
    have hmem := List.mem_of_find?_eq_some hfind
    rcases List.mem_append.mp hmem with h | h
    · exact List.mem_append_left _ (List.of_mem_zip h).2
    · exact List.mem_append_right _ (List.mem_map_of_mem h)

theorem Grounded.of_leaves (hg : s.Grounded) (hsize : s.nodes.size ≤ t.nodes.size)
    (h : ∀ {i : NodeId} {key operator value : Argument},
      t.body i = some (.leaf key operator value) →
        s.body i = some (.leaf key operator value) ∨
        (∃ k o : Value, key = .value k ∧ operator = .value o) ∧
          ∀ n ∈ value.nodes, n < t.nodes.size) : t.Grounded where
  texts hi := by
    rcases h hi with hi | ⟨hko, -⟩
    · exact hg.texts hi
    · exact hko
  known hi n hn := by
    rcases h hi with hi | ⟨-, hknown⟩
    · exact (hg.known hi n hn).trans_le hsize
    · exact hknown n hn

theorem body_leaf_of_setSlots {id i : NodeId} {slots : List Slot} {key operator value : Argument}
    (h : (s.setSlots id slots).body i = some (.leaf key operator value)) :
    s.body i = some (.leaf key operator value) := by
  by_cases hid : id = i
  · unfold body at h
    rw [nodes_setSlots, if_pos hid, Option.map_map] at h
    obtain ⟨n, -, hn⟩ := Option.map_eq_some_iff.mp h
    cases hn
  · rwa [body_setSlots_of_ne _ hid] at h

theorem body_push {m : Node} {i : NodeId} {b : Body} (h : (s.push m).1.body i = some b) :
    s.body i = some b ∨ i = s.nodes.size ∧ m.body = b := by
  unfold body at h
  rw [nodes_push] at h
  split at h
  · next hi => exact .inr ⟨hi, Option.some.inj h⟩
  · exact .inl h

end FilterTree.Store
