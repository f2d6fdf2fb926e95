import Mathlib.Data.List.Chain
import Mathlib.Data.List.Perm.Subperm
import FilterTree.Proofs.Store.Fields

/-! Which nodes lie below which. In a store without cycles no path is longer than there are nodes,
so that the view of a node is whole and the test for cycles exact. -/

namespace FilterTree.Store
open Relation

def Holds (s : Store) (owner payload : NodeId) : Prop :=
  payload ∈ (s.slots owner).map (·.payload)

/-- Slots lead to nodes of the store, and never back. -/
structure Sound (s : Store) : Prop where
  lt_size : ∀ {a b}, s.Holds a b → b < s.nodes.size
  acyclic : ∀ a, ¬ TransGen s.Holds a a

theorem holds_congr {s t : Store}
    (h : ∀ i, (t.slots i).map (·.payload) = (s.slots i).map (·.payload)) : t.Holds = s.Holds := by
  funext a b
  simp only [Holds, h]

theorem lt_size_of_holds {s : Store} {a b : NodeId} (h : s.Holds a b) : a < s.nodes.size := by
  by_contra hle
  simp [Holds, slots_eq_nil_of_size_le (Nat.le_of_not_lt hle)] at h

/-! ### The nodes of a view -/

@[simp] theorem id_viewWithin (s : Store) (d : Nat) (id : NodeId) :
    (s.viewWithin d id).id = id := by
  cases d with
  | zero => rfl
  | succ d =>
    rw [viewWithin]
    rcases s.nodes[id]? with _ | ⟨_, _ | _⟩ <;> rfl

theorem idsOfSlots_map (slots : List Slot) (f : NodeId → Tree) :
    Tree.idsOfSlots (slots.map fun slot => (slot.join, f slot.payload)) =
      (slots.map (·.payload)).flatMap fun i => (f i).ids := by
  induction slots with
  | nil => rfl
  | cons slot rest ih => simp only [List.map_cons, Tree.idsOfSlots, List.flatMap_cons, ih]

theorem ids_viewWithin_succ (s : Store) (d : Nat) (id : NodeId) :
    (s.viewWithin (d + 1) id).ids =
      id :: ((s.slots id).map (·.payload)).flatMap fun i => (s.viewWithin d i).ids := by
  rw [viewWithin]
  rcases hn : s.nodes[id]? with _ | ⟨_, _ | slots⟩
  · simp [Store.slots, hn, Tree.ids, Tree.idsOfSlots]
  · simp [Store.slots, hn, Tree.ids]
  · simp only [Store.slots, hn, Tree.ids, idsOfSlots_map]

theorem reflTransGen_of_mem_ids {s : Store} {d : Nat} {a b : NodeId}
    (h : b ∈ (s.viewWithin d a).ids) : ReflTransGen s.Holds a b := by
  induction d generalizing a with
  | zero =>
    have hb : b = a := by simpa [viewWithin, Tree.ids, Tree.idsOfSlots] using h
    rw [hb]
  | succ d ih =>
    rw [ids_viewWithin_succ, List.mem_cons, List.mem_flatMap] at h
    rcases h with rfl | ⟨i, hi, hb⟩
    · exact .refl
    · exact .head hi (ih hb)

theorem getLast_mem_ids {s : Store} {d : Nat} {a : NodeId} {path : List NodeId}
    (hc : (a :: path).IsChain s.Holds) (hd : path.length ≤ d) :
    (a :: path).getLast (List.cons_ne_nil _ _) ∈ (s.viewWithin d a).ids := by
  induction path generalizing a d with
  | nil =>
    cases d with
    | zero => simp [viewWithin, Tree.ids]
    | succ d => simp [ids_viewWithin_succ]
  | cons i path ih =>
    obtain ⟨d, rfl⟩ : ∃ n, d = n + 1 := Nat.exists_eq_succ_of_ne_zero (by simp at hd; omega)
    obtain ⟨hi, hc⟩ := List.isChain_cons_cons.mp hc
    rw [ids_viewWithin_succ, List.getLast_cons (List.cons_ne_nil _ _)]
    refine List.mem_cons_of_mem _ (List.mem_flatMap.mpr ⟨i, hi, ih hc ?_⟩)
    simpa using hd

/-! ### Paths are short -/

theorem Sound.nodup_of_isChain {s : Store} (hs : s.Sound) {path : List NodeId}
    (hc : path.IsChain s.Holds) : path.Nodup := by
  have hp : path.Pairwise (TransGen s.Holds) :=
    List.isChain_iff_pairwise.mp (hc.imp fun _ _ => TransGen.single)
  refine hp.imp ?_
  rintro a b hab rfl
  exact hs.acyclic a hab

theorem Sound.lt_size_of_mem {s : Store} (hs : s.Sound) {a i : NodeId} {path : List NodeId}
    (hc : (a :: path).IsChain s.Holds) (hi : i ∈ path) : i < s.nodes.size := by
  induction path generalizing a with
  | nil => simp at hi
  | cons b path ih =>
    obtain ⟨hb, hc⟩ := List.isChain_cons_cons.mp hc
    rcases List.mem_cons.mp hi with rfl | hi
    · exact hs.lt_size hb
    · exact ih hc hi

theorem Sound.length_lt {s : Store} (hs : s.Sound) {a : NodeId} {path : List NodeId}
    (ha : a < s.nodes.size) (hc : (a :: path).IsChain s.Holds) : path.length < s.nodes.size := by
  have hsub : a :: path ⊆ List.range s.nodes.size := by
    intro i hi
    rcases List.mem_cons.mp hi with rfl | hi
    · exact List.mem_range.mpr ha
    · exact List.mem_range.mpr (hs.lt_size_of_mem hc hi)
  -- a path visits no node twice, and there are no more nodes than the store has
  have hle := ((hs.nodup_of_isChain hc).subperm hsub).length_le
  rw [List.length_range, List.length_cons] at hle
  exact hle

theorem Sound.length_le {s : Store} (hs : s.Sound) {a : NodeId} {path : List NodeId}
    (hc : (a :: path).IsChain s.Holds) : path.length ≤ s.nodes.size := by
  cases path with
  | nil => exact Nat.zero_le _
  | cons b path =>
    exact (hs.length_lt (lt_size_of_holds (List.isChain_cons_cons.mp hc).1) hc).le

theorem Sound.mem_ids_view_iff {s : Store} (hs : s.Sound) {a b : NodeId} :
    b ∈ (s.view a).ids ↔ ReflTransGen s.Holds a b := by
  refine ⟨reflTransGen_of_mem_ids, fun h => ?_⟩
  obtain ⟨path, hc, rfl⟩ := List.exists_isChain_cons_of_relationReflTransGen h
  exact getLast_mem_ids hc (hs.length_le hc)

/-- The test for cycles finds exactly what lies below a node, itself included. -/
theorem Sound.reaches_iff {s : Store} (hs : s.Sound) {a b : NodeId} :
    s.reaches a b = true ↔ ReflTransGen s.Holds a b := by
  rw [reaches, List.contains_iff_mem, hs.mem_ids_view_iff]

/-! ### Whole views -/

mutual

/-- A tree shows what the store holds, down to its leaves. -/
def Shows (s : Store) : Tree → Prop
  | .leaf id h c => ∃ see : NodeId → Operand, ∃ key operator value,
      s.nodes[id]? = some ⟨h, .leaf key operator value⟩ ∧
        c = ⟨key.operand see, operator.operand see, value.operand see⟩
  | .branch id h slots =>
    s.nodes[id]? = some ⟨h, .branch (slots.map fun p => ⟨p.1, p.2.id⟩)⟩ ∧ ShowsAll s slots

def ShowsAll (s : Store) : List (Join × Tree) → Prop
  | [] => True
  | (_, t) :: rest => Shows s t ∧ ShowsAll s rest

end

end FilterTree.Store
