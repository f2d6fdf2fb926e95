import FilterTree.Proofs.Store.Deeds

/-! One tree has one hook set. As long as no condition is nested twice, and hooks come from nowhere
but from making and nesting, what a condition holds has the very hook set of its owner. -/

namespace FilterTree.Store
open Relation

theorem hooks_push_of_takeHooks {s t : Store} {given h : Hooks}
    (ht : s.takeHooks given = .ok (t, h)) (b : Body) :
    ∀ i < s.nodes.size, (t.push ⟨h, b⟩).1.hooks i = s.hooks i := by
  intro i hi
  rw [← hooks_of_takeHooks ht]
  apply hooks_eq_of_nodes_eq
  rw [nodes_push, takeHooks_eq_ok ht, if_neg (Nat.ne_of_lt hi)]

theorem hooks_push_self_of_takeHooks {s t : Store} {given h : Hooks}
    (ht : s.takeHooks given = .ok (t, h)) (b : Body) :
    (t.push ⟨h, b⟩).1.hooks s.nodes.size = h := by
  apply hooks_eq_of_nodes (n := ⟨h, b⟩)
  rw [nodes_push, takeHooks_eq_ok ht, if_pos rfl]

theorem hooks_rebind {s : Store} {i : NodeId} (hi : i < s.nodes.size) (id : NodeId) (h : Hooks) :
    (s.rebind id h).hooks i = if i ∈ (s.view id).ids then h else s.hooks i := by
  obtain ⟨n, hn⟩ : ∃ n, s.nodes[i]? = some n := ⟨_, Array.getElem?_eq_getElem hi⟩
  split
  · next hmem =>
    apply hooks_eq_of_nodes (n := { n with hooks := h })
    rw [nodes_rebind, if_pos hmem, hn]
    rfl
  · next hmem =>
    apply hooks_eq_of_nodes_eq
    rw [nodes_rebind, if_neg hmem]

theorem exists_set_of_takeHooks {s t : Store} {given h : Hooks}
    (ht : s.takeHooks given = .ok (t, h)) : ∃ k own, h = .set k own := by
  obtain ⟨⟨k, own⟩, -, hp⟩ := except_bind_eq_ok_iff.mp ht
  cases hp
  exact ⟨k, own, rfl⟩

theorem eq_of_takeHooks_set {s t : Store} {k : Nat} {own : HookSet} {h : Hooks}
    (ht : s.takeHooks (.set k own) = .ok (t, h)) : h = .set k own := by
  rw [takeHooks_set] at ht
  cases ht
  rfl

theorem Sound.of_edits {s t : Store} (hs : s.Sound) (he : Edits s t) : t.Sound := by
  induction he with
  | refl => exact hs
  | tail _ he ih => exact ih.of_edit he

/-- A store in which every payload has one owner and the hooks of this owner. All conditions that
are nested are in the list. -/
structure Tidy (s : Store) (nested : List NodeId) : Prop where
  sound : s.Sound
  isSet : ∀ i < s.nodes.size, ∃ k h, s.hooks i = .set k h
  unique : ∀ {a b c}, s.Holds a c → s.Holds b c → a = b
  known : ∀ {a c}, s.Holds a c →
    c ∈ nested ∨ ∃ key operator value, s.body c = some (.leaf key operator value)
  shared : ∀ {a c}, s.Holds a c → s.hooks c = s.hooks a

variable {s t : Store} {nested : List NodeId}

theorem tidy_empty : empty.Tidy [] where
  sound := sound_empty
  isSet i hi := absurd hi (Nat.not_lt_zero i)
  unique h := absurd (lt_size_of_holds h) (Nat.not_lt_zero _)
  known h := absurd (lt_size_of_holds h) (Nat.not_lt_zero _)
  shared h := absurd (lt_size_of_holds h) (Nat.not_lt_zero _)

theorem Tidy.of_holds_eq (hs : s.Tidy nested) (he : Edits s t) (hholds : t.Holds = s.Holds)
    (hset : ∀ i < t.nodes.size, ∃ k h, t.hooks i = .set k h)
    (hhooks : ∀ i < s.nodes.size, t.hooks i = s.hooks i) : t.Tidy nested where
  sound := hs.sound.of_edits he
  isSet := hset
  unique ha hb := by
    rw [hholds] at ha hb
    exact hs.unique ha hb
  known h := by
    rw [hholds] at h
    exact (hs.known h).imp_right fun ⟨key, operator, value, hb⟩ =>
      ⟨key, operator, value, he.body_leaf hb⟩
  shared h := by
    rw [hholds] at h
    rw [hhooks _ (hs.sound.lt_size h), hhooks _ (lt_size_of_holds h), hs.shared h]

theorem Tidy.of_insert (hs : s.Tidy nested) (he : Edits s t) {owner child : NodeId}
    {more : List NodeId}
    (hholds : ∀ a c, t.Holds a c → s.Holds a c ∨ a = owner ∧ c = child)
    (hfree : ∀ a, ¬ s.Holds a child)
    (hchild : child ∈ more ∨ ∃ key operator value, t.body child = some (.leaf key operator value))
    (hset : ∀ i < t.nodes.size, ∃ k h, t.hooks i = .set k h)
    (hshared : ∀ a c, s.Holds a c → t.hooks c = t.hooks a)
    (hnew : t.hooks child = t.hooks owner) : t.Tidy (nested ++ more) where
  sound := hs.sound.of_edits he
  isSet := hset
  unique {a b c} ha hb := by
    rcases hholds a c ha with ha | ⟨rfl, rfl⟩ <;> rcases hholds b c hb with hb | ⟨rfl, hc⟩
    · exact hs.unique ha hb
    · subst hc
      exact absurd ha (hfree a)
    · exact absurd hb (hfree b)
    · rfl
  known {a c} h := by
    rcases hholds a c h with h | ⟨-, rfl⟩
    · rcases hs.known h with hc | ⟨key, operator, value, hb⟩
      · exact .inl (List.mem_append_left _ hc)
      · exact .inr ⟨key, operator, value, he.body_leaf hb⟩
    · exact hchild.imp_left (List.mem_append_right _)
  shared {a c} h := by
    rcases hholds a c h with h | ⟨rfl, rfl⟩
    · exact hshared a c h
    · exact hnew

theorem Tidy.isSet_push (hs : s.Tidy nested) {u : Store} {given h : Hooks}
    (hu : s.takeHooks given = .ok (u, h)) (b : Body) :
    ∀ i < s.nodes.size + 1, ∃ k own, (u.push ⟨h, b⟩).1.hooks i = .set k own := by
  intro i hi
  rcases Nat.lt_succ_iff_lt_or_eq.mp hi with hi | rfl
  · rw [hooks_push_of_takeHooks hu b i hi]
    exact hs.isSet i hi
  · rw [hooks_push_self_of_takeHooks hu]
    exact exists_set_of_takeHooks hu

theorem Tidy.of_creates (hs : s.Tidy nested) {u : Store} {given h : Hooks}
    (hu : s.takeHooks given = .ok (u, h)) : (u.push ⟨h, .branch []⟩).1.Tidy nested := by
  refine hs.of_holds_eq ((ReflTransGen.single (.takeHooks hu)).tail (.condition h)) ?_ ?_
    (hooks_push_of_takeHooks hu _)
  · exact holds_congr fun i => by rw [slots_push_branch_of_takeHooks hu]
  · rw [size_push_of_takeHooks hu]
    exact hs.isSet_push hu _

theorem Tidy.of_expression (hs : s.Tidy nested) {u : Store} {owner : NodeId} {h : Hooks}
    (j : Join) (key operator value : Argument) (ho : s.isBranch owner = true)
    (hu : s.takeHooks (s.hooks owner) = .ok (u, h)) :
    ((u.push ⟨h, .leaf key operator value⟩).1.setSlots owner
      (joinLast j (s.slots owner) ++ [⟨j, s.nodes.size⟩])).Tidy (nested ++ []) := by
  have hn := takeHooks_eq_ok hu
  have hlt := lt_size_of_isBranch ho
  have hslots := slots_push_leaf_of_takeHooks hu key operator value
  have hou := isBranch_push_of_takeHooks hu ⟨h, .leaf key operator value⟩ ho
  have hold := hooks_push_of_takeHooks hu (.leaf key operator value)
  have hnew := hooks_push_self_of_takeHooks hu (.leaf key operator value)
  -- the owner's hooks are a hook set, which the new expression takes as it is
  have hown : h = s.hooks owner := by
    obtain ⟨k, own, hset⟩ := hs.isSet owner hlt
    rw [hset] at hu
    rw [hset, eq_of_takeHooks_set hu]
  refine hs.of_insert (.single (.leaf j key operator value ho hu))
    (fun a c hac => holds_append hslots hou hac)
    (fun a ha => absurd (hs.sound.lt_size ha) (Nat.lt_irrefl _))
    (.inr ⟨key, operator, value, ?_⟩) ?_ ?_ ?_
  · rw [body_setSlots_of_ne _ (Nat.ne_of_lt hlt), ← hn]
    unfold body
    rw [nodes_push, if_pos rfl]
    rfl
  · intro i hi
    rw [size_setSlots, size_push_of_takeHooks hu] at hi
    rw [hooks_setSlots]
    exact hs.isSet_push hu _ i hi
  · intro a c hac
    rw [hooks_setSlots, hooks_setSlots, hold c (hs.sound.lt_size hac),
      hold a (lt_size_of_holds hac), hs.shared hac]
  · rw [hooks_setSlots, hooks_setSlots, hnew, hold owner hlt, hown]

theorem Tidy.of_attach (hs : s.Tidy nested) {owner child : NodeId} (j : Join)
    (ho : s.isBranch owner = true) (hc : s.isBranch child = true)
    (hr : s.reaches child owner = false) (hfresh : child ∉ nested) :
    ((s.rebind child (s.hooks owner)).setSlots owner
      (joinLast j (s.slots owner) ++ [⟨j, child⟩])).Tidy (nested ++ [child]) := by
  have hlt := lt_size_of_isBranch ho
  have hfree : ∀ a, ¬ s.Holds a child := by
    intro a ha
    rcases hs.known ha with hmem | ⟨key, operator, value, hb⟩
    · exact hfresh hmem
    · exact ne_of_body_leaf hc hb rfl
  have hout : owner ∉ (s.view child).ids := by
    intro hmem
    rw [reaches, List.contains_iff_mem.mpr hmem] at hr
    cases hr
  have hbelow {a c : NodeId} (hac : s.Holds a c) :
      c ∈ (s.view child).ids ↔ a ∈ (s.view child).ids := by
    rw [hs.sound.mem_ids_view_iff, hs.sound.mem_ids_view_iff]
    refine ⟨fun hpath => ?_, fun hpath => hpath.tail hac⟩
    -- the way down to a payload comes through its only owner
    rcases ReflTransGen.cases_tail hpath with heq | ⟨b, hpath, hbc⟩
    · subst heq
      exact absurd hac (hfree a)
    · rw [hs.unique hac hbc]
      exact hpath
  have hhooks : ∀ i < s.nodes.size,
      ((s.rebind child (s.hooks owner)).setSlots owner
        (joinLast j (s.slots owner) ++ [⟨j, child⟩])).hooks i =
        if i ∈ (s.view child).ids then s.hooks owner else s.hooks i := by
    intro i hi
    rw [hooks_setSlots, hooks_rebind hi]
  refine hs.of_insert (.single (.attach j ho hc hr))
    (fun a c hac => holds_append (slots_rebind s child · _) ((isBranch_rebind _ _ _ _).trans ho) hac)
    hfree (.inl (List.mem_singleton_self child)) ?_ ?_ ?_
  · intro i hi
    rw [size_setSlots, size_rebind] at hi
    rw [hhooks i hi]
    split
    · exact hs.isSet owner hlt
    · exact hs.isSet i hi
  · intro a c hac
    rw [hhooks c (hs.sound.lt_size hac), hhooks a (lt_size_of_holds hac)]
    simp only [hbelow hac, hs.shared hac]
  · rw [hhooks child (lt_size_of_isBranch hc), hhooks owner hlt, if_neg hout,
      if_pos (hs.sound.mem_ids_view_iff.mpr .refl)]

theorem Tidy.of_joins (hs : s.Tidy nested) {id : NodeId} (i : Nat) (j : Join)
    (hid : s.isBranch id = true) :
    (s.setSlots id ((s.slots id).modify i fun slot => { slot with join := j })).Tidy nested := by
  refine hs.of_holds_eq (.single (.join i j hid)) (holds_modify_join hid i j) ?_ fun k _ =>
    hooks_setSlots ..
  intro k hk
  rw [size_setSlots] at hk
  rw [hooks_setSlots]
  exact hs.isSet k hk

theorem Tidy.of_does {a : Action} {d : Option Deed} (hs : s.Tidy nested) (h : Does s a d t)
    (ha : a.isAssignment = false)
    (hnodup : (nested ++ d.toList.filterMap Deed.nested?).Nodup) :
    t.Tidy (nested ++ d.toList.filterMap Deed.nested?) := by
  cases h with
  | fails =>
    rw [Option.toList_none, List.filterMap_nil, List.append_nil]
    exact hs
  | creates hu =>
    rw [Option.toList_none, List.filterMap_nil, List.append_nil]
    exact hs.of_creates hu
  | assigns => cases ha
  | appends ho h =>
    cases h with
    | condition hc hr =>
      have hfresh := (List.nodup_append.mp hnodup).2.2
      exact hs.of_attach _ ho hc hr fun hmem => hfresh _ hmem _ (List.mem_singleton_self _) rfl
    | expression hu hv => exact hs.of_expression _ _ _ _ ho hu
  | joins i j hid _ =>
    rw [show (some _ : Option Deed).toList.filterMap Deed.nested? = [] from rfl, List.append_nil]
    exact hs.of_joins i j hid

theorem Tidy.foldl_after {calls : List Action} (hs : s.Tidy nested)
    (hrestore : ∀ a ∈ calls, a.isRestore = false) (hassign : ∀ a ∈ calls, a.isAssignment = false)
    (hnodup : (nested ++ (s.deeds calls).filterMap Deed.nested?).Nodup) :
    (calls.foldl after s).Tidy (nested ++ (s.deeds calls).filterMap Deed.nested?) := by
  induction calls generalizing s nested with
  | nil =>
    rw [deeds, List.filterMap_nil, List.append_nil]
    exact hs
  | cons a rest ih =>
    rw [deeds, List.filterMap_append, ← List.append_assoc] at hnodup ⊢
    have hfirst := hs.of_does (does_of_perform (hrestore a List.mem_cons_self))
      (hassign a List.mem_cons_self) (List.nodup_append.mp hnodup).1
    exact ih hfirst (fun b hb => hrestore b (List.mem_cons_of_mem _ hb))
      (fun b hb => hassign b (List.mem_cons_of_mem _ hb)) hnodup

/-- After any history that nests no condition twice and assigns no hooks, every payload has the very
hook set of its owner, and so has everything that is connected with it. -/
theorem run_hooks_common (actions : List Action) (hassign : ∀ a ∈ actions, a.isAssignment = false)
    (honce : ((empty.deeds (empty.elementary actions)).filterMap Deed.nested?).Nodup) :
    (∀ owner payload, (run actions).Holds owner payload →
      ∃ k h, (run actions).hooks owner = .set k h ∧ (run actions).hooks payload = .set k h) ∧
    (∀ root, ∀ i ∈ ((run actions).view root).ids,
      (run actions).hooks i = (run actions).hooks root) ∧
    ∀ a b, EqvGen (run actions).Holds a b → (run actions).hooks a = (run actions).hooks b := by
  have htidy := tidy_empty.foldl_after (fun _ => isRestore_of_mem_elementary)
    (fun _ => isAssignment_of_mem_elementary hassign) honce
  rw [foldl_elementary] at htidy
  change (run actions).Tidy _ at htidy
  refine ⟨fun owner payload h => ?_, fun root i hi => ?_, fun a b h => ?_⟩
  · obtain ⟨k, own, hset⟩ := htidy.isSet owner (lt_size_of_holds h)
    exact ⟨k, own, hset, (htidy.shared h).trans hset⟩
  · have hpath := htidy.sound.mem_ids_view_iff.mp hi
    induction hpath with
    | refl => rfl
    | tail hab hbc ih =>
      rw [htidy.shared hbc, ih (htidy.sound.mem_ids_view_iff.mpr hab)]
  · induction h with
    | rel a b h => exact (htidy.shared h).symm
    | refl a => rfl
    | symm a b _ ih => exact ih.symm
    | trans a b c _ _ hab hbc => exact hab.trans hbc

/-- Conditions with hook sets of their own, nested from below and from above, the last one of them
restored. -/
def nestedBothWays : List Action :=
  [.create (.set 1 (HookSet.empty.put .renderKey (some Builtin.renderValue))),
    .create (.set 2 Builtin.hooks),
    .add 1 .and [.value (.text "a"), .value (.text "eq"), .value .null] [],
    .add 0 .or [.node 1] [], .create .none, .add 1 .and [.node 3] [],
    .add 3 .or [.value (.text "b"), .value (.text "lt"), .value (.int 2)] [],
    .restore (.list [.map [(.text "joinOperator", .text "or"), (.text "condition", .list [])]])
      (.mapping [(.text "renderKey", .hook Builtin.renderKey)]) .null,
    .add 3 .and [.node 5] []]

theorem run_hooks_common_nestedBothWays :
    ((empty.deeds (empty.elementary nestedBothWays)).filterMap Deed.nested?).Nodup ∧
    (run nestedBothWays).hooks 0 =
      .set 1 (HookSet.empty.put .renderKey (some Builtin.renderValue)) ∧
    (run nestedBothWays).hooks 4 = (run nestedBothWays).hooks 0 ∧
    (run nestedBothWays).hooks 6 = (run nestedBothWays).hooks 0 := by
  have hnested : (empty.deeds (empty.elementary nestedBothWays)).filterMap Deed.nested? =
      [1, 3, 6, 5] := by decide +kernel
  have honce : ((empty.deeds (empty.elementary nestedBothWays)).filterMap Deed.nested?).Nodup := by
    rw [hnested]
    decide
  have hassign : ∀ a ∈ nestedBothWays, a.isAssignment = false := by
    simp [nestedBothWays, Action.isAssignment]
  have hroot : (run nestedBothWays).hooks 0 =
      .set 1 (HookSet.empty.put .renderKey (some Builtin.renderValue)) := by with_unfolding_all rfl
  have hids : ((run nestedBothWays).view 0).ids = [0, 1, 2, 3, 4, 5, 6] := by decide +kernel
  obtain ⟨-, hbelow, -⟩ := run_hooks_common nestedBothWays hassign honce
  exact ⟨honce, hroot, hbelow 0 4 (by rw [hids]; decide), hbelow 0 6 (by rw [hids]; decide)⟩

end FilterTree.Store
