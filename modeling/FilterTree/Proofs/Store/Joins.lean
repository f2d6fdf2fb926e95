import FilterTree.Proofs.Store.Deeds
import FilterTree.Proofs.Value.Shape

/-! The slots of a condition, told from its history. Each append that succeeds makes one slot, and a
slot has the join that was named last by its own append, by the append after it, or by a call that
sets it. -/

namespace FilterTree

def Value.slotJoin? : Value → Option Value
  | .map entries => field? entries "joinOperator"
  | _ => none

def Value.recordJoins : Value → List Value
  | .list slots => slots.filterMap slotJoin?
  | _ => []

namespace Store

def deedsOn (x : NodeId) (actions : List Action) : List Deed :=
  (empty.deeds (empty.elementary actions)).filter fun d => d.target = x

/-- The joins that deeds name for slot `i`, in order, where `n` slots are there before. The append
that finds `i` slots makes slot `i`, and the next one names its join again. -/
def Deed.naming (i : Nat) : Nat → List Deed → List Join
  | _, [] => []
  | n, .append _ j _ :: rest =>
    if n = i ∨ n = i + 1 then j :: naming i (n + 1) rest else naming i (n + 1) rest
  | n, .setJoin _ k j :: rest => if k = i then j :: naming i n rest else naming i n rest

/-! ### Slots from deeds -/

def Deed.apply (slots : List Slot) : Deed → List Slot
  | .append _ j what => joinLast j slots ++ [⟨j, what.id⟩]
  | .setJoin _ i j => slots.modify i fun slot => { slot with join := j }

theorem Does.slots {s t : Store} {a : Action} {d : Option Deed} (h : Does s a d t) (x : NodeId) :
    t.slots x = (d.toList.filter fun d => d.target = x).foldl Deed.apply (s.slots x) := by
  cases h with
  | fails => rfl
  | creates hu =>
    rw [slots_push_branch_of_takeHooks hu]
    rfl
  | assigns id h => exact slots_setHooks s id x h
  | @appends owner j _ _ what _ ho h =>
    rw [h.slots ho]
    by_cases hx : owner = x
    · subst hx
      simp [Deed.target, Deed.apply]
    · simp [Deed.target, hx]
  | @joins id _ _ i j hid _ =>
    by_cases hx : id = x
    · subst hx
      rw [slots_setSlots_self _ hid]
      simp [Deed.target, Deed.apply]
    · rw [slots_setSlots_of_ne _ hx]
      simp [Deed.target, hx]

theorem slots_foldl_after {actions : List Action} (hcalls : ∀ a ∈ actions, a.isRestore = false)
    (s : Store) (x : NodeId) : (actions.foldl after s).slots x =
      ((s.deeds actions).filter fun d => d.target = x).foldl Deed.apply (s.slots x) := by
  induction actions generalizing s with
  | nil => rfl
  | cons a rest ih =>
    have hrest : ∀ b ∈ rest, b.isRestore = false := fun b hb => hcalls b (List.mem_cons_of_mem _ hb)
    have hfirst := (does_of_perform (s := s) (hcalls a List.mem_cons_self)).slots x
    rw [List.foldl_cons, ih hrest, deeds, List.filter_append, List.foldl_append, hfirst]

theorem slots_run (actions : List Action) (x : NodeId) :
    (run actions).slots x = (deedsOn x actions).foldl Deed.apply [] := by
  rw [← run_elementary]
  exact slots_foldl_after (fun _ => isRestore_of_mem_elementary) empty x

/-! ### The closed form -/

theorem length_apply_append (slots : List Slot) (x : NodeId) (j : Join) (what : Appended) :
    (Deed.apply slots (.append x j what)).length = slots.length + 1 := by
  rw [Deed.apply, List.length_append, length_joinLast]
  rfl

theorem length_apply_setJoin (slots : List Slot) (x : NodeId) (i : Nat) (j : Join) :
    (Deed.apply slots (.setJoin x i j)).length = slots.length :=
  List.length_modify ..

theorem map_payload_foldl_apply (deeds : List Deed) (slots : List Slot) :
    (deeds.foldl Deed.apply slots).map (·.payload) =
      slots.map (·.payload) ++ (deeds.filterMap Deed.appended?).map (·.2.id) := by
  induction deeds generalizing slots with
  | nil => simp
  | cons d rest ih =>
    rw [List.foldl_cons, ih]
    cases d with
    | append x j what => simp [Deed.apply, Deed.appended?, map_payload_joinLast]
    | setJoin x i j =>
      rw [List.filterMap_cons_none rfl, Deed.apply, map_payload_modify]

theorem join_apply_append (slots : List Slot) (x : NodeId) (j : Join) (what : Appended) (i : Nat) :
    (Deed.apply slots (.append x j what))[i]?.map (·.join) =
      if slots.length = i ∨ slots.length = i + 1 then some j else slots[i]?.map (·.join) := by
  rw [Deed.apply, joinLast_eq_modify, List.getElem?_append, List.length_modify]
  by_cases hi : i < slots.length
  · rw [if_pos hi, List.getElem?_modify, List.getElem?_eq_getElem hi]
    by_cases hlast : slots.length = i + 1
    · simp [hlast]
    · have hindex : slots.length - 1 ≠ i := by omega
      have hne : ¬slots.length = i := by omega
      simp [hlast, hindex, hne]
  · rw [if_neg hi]
    by_cases hnext : slots.length = i
    · simp [hnext]
    · have hne : ¬slots.length = i + 1 := by omega
      have hbeyond : i - slots.length ≠ 0 := by omega
      have hnone : slots[i]? = none := List.getElem?_eq_none (Nat.le_of_not_lt hi)
      simp [hnext, hne, hbeyond, hnone]

theorem join_apply_setJoin (slots : List Slot) (x : NodeId) (k : Nat) (j : Join) (i : Nat) :
    (Deed.apply slots (.setJoin x k j))[i]?.map (·.join) =
      if k = i then slots[i]?.map (fun _ => j) else slots[i]?.map (·.join) := by
  rw [Deed.apply, List.getElem?_modify]
  by_cases hk : k = i
  · simp [hk, Function.comp_def]
  · simp [hk]

theorem getLast?_cons_or (j : Join) (js : List Join) (o : Option Join) :
    (j :: js).getLast?.or o = js.getLast?.or (some j) := by
  rw [List.getLast?_cons]
  cases js.getLast? <;> rfl

/-- A slot has the join named last, or the one it had where none is named. -/
theorem naming_foldl_apply (deeds : List Deed) {slots : List Slot} {i : Nat} {slot : Slot}
    (h : (deeds.foldl Deed.apply slots)[i]? = some slot) :
    (Deed.naming i slots.length deeds).getLast?.or (slots[i]?.map (·.join)) = some slot.join := by
  induction deeds generalizing slots with
  | nil =>
    have hs : slots[i]? = some slot := h
    rw [hs]
    rfl
  | cons d rest ih =>
    have hrest := ih h
    cases d with
    | append x j what =>
      rw [length_apply_append, join_apply_append] at hrest
      rw [Deed.naming]
      split
      · next hn =>
        rw [if_pos hn] at hrest
        rw [getLast?_cons_or, hrest]
      · next hn =>
        rw [if_neg hn] at hrest
        exact hrest
    | setJoin x k j =>
      rw [length_apply_setJoin, join_apply_setJoin] at hrest
      rw [Deed.naming]
      split
      · next hk =>
        rw [if_pos hk] at hrest
        rw [getLast?_cons_or]
        -- a slot that is not there yet gets its join from a later append
        cases hnamed : (Deed.naming i slots.length rest).getLast? with
        | some last =>
          rw [hnamed] at hrest
          exact hrest
        | none =>
          rw [hnamed] at hrest
          cases hslot : slots[i]? with
          | some old =>
            rw [hslot] at hrest
            exact hrest
          | none =>
            rw [hslot] at hrest
            cases hrest
      · next hk =>
        rw [if_neg hk] at hrest
        exact hrest

theorem getLast?_naming {deeds : List Deed} {i : Nat} {slot : Slot}
    (h : (deeds.foldl Deed.apply [])[i]? = some slot) :
    (Deed.naming i 0 deeds).getLast? = some slot.join := by
  have hnamed := naming_foldl_apply deeds h
  simpa using hnamed

/-! ### Appends alone -/

theorem map_join_foldl_apply {deeds : List Deed} (h : ∀ d ∈ deeds, d.appended?.isSome = true)
    (slots : List Slot) (slot : Slot) :
    (deeds.foldl Deed.apply (slots ++ [slot])).map (·.join) =
      slots.map (·.join) ++ (deeds.filterMap Deed.appended?).map (·.1) ++
        [((deeds.filterMap Deed.appended?).map (·.1)).getLast?.getD slot.join] := by
  induction deeds generalizing slots slot with
  | nil => simp
  | cons d rest ih =>
    have hrest : ∀ d ∈ rest, d.appended?.isSome = true :=
      fun d hd => h d (List.mem_cons_of_mem _ hd)
    cases d with
    | append x j what =>
      rw [List.foldl_cons, Deed.apply, joinLast_append, ih hrest]
      simp [Deed.appended?, List.getLast?_cons]
    | setJoin x i j => exact absurd (h _ List.mem_cons_self) (by simp [Deed.appended?])

theorem map_join_of_appends {deeds : List Deed} (h : ∀ d ∈ deeds, d.appended?.isSome = true) :
    (deeds.foldl Deed.apply []).map (·.join) =
      ((deeds.filterMap Deed.appended?).map (·.1)).tail ++
        ((deeds.filterMap Deed.appended?).map (·.1)).getLast?.toList := by
  cases deeds with
  | nil => rfl
  | cons d rest =>
    have hrest : ∀ d ∈ rest, d.appended?.isSome = true :=
      fun d hd => h d (List.mem_cons_of_mem _ hd)
    cases d with
    | append x j what =>
      have hfirst : Deed.apply [] (.append x j what) = [] ++ [⟨j, what.id⟩] := rfl
      rw [List.foldl_cons, hfirst, map_join_foldl_apply hrest]
      simp [Deed.appended?, List.getLast?_cons]
    | setJoin x i j => exact absurd (h _ List.mem_cons_self) (by simp [Deed.appended?])

theorem foldl_apply_congr {rest : List Deed} (h : ∃ d ∈ rest, d.appended?.isSome = true)
    (slot : Slot) (k : Join) :
    rest.foldl Deed.apply [slot] = rest.foldl Deed.apply [{ slot with join := k }] := by
  induction rest with
  | nil =>
    obtain ⟨d, hd, -⟩ := h
    cases hd
  | cons d rest ih =>
    cases d with
    | append x j what => rfl
    | setJoin x i j =>
      cases i with
      | zero => rfl
      | succ i =>
        have hrest : ∃ d ∈ rest, d.appended?.isSome = true := by
          obtain ⟨d, hd, hsome⟩ := h
          rcases List.mem_cons.mp hd with rfl | hd
          · cases hsome
          · exact ⟨d, hd, hsome⟩
        -- there is one slot so far, and a later one is not found
        have hskip (slot : Slot) : Deed.apply [slot] (.setJoin x (i + 1) j) = [slot] := by
          simp [Deed.apply]
        rw [List.foldl_cons, List.foldl_cons, hskip, hskip]
        exact ih hrest

/-! ### The record -/

theorem recordJoins_recordOfSlots (slots : List (Join × Tree)) :
    (Value.list (Tree.recordOfSlots slots)).recordJoins = slots.map fun p => .text p.1.name := by
  induction slots with
  | nil => rfl
  | cons p rest ih =>
    have hfirst : Value.slotJoin? (.map [(.text "joinOperator", .text p.1.name),
        (.text p.2.fieldName, p.2.record)]) = some (.text p.1.name) := by
      rw [Value.slotJoin?, Value.field?_cons_text, if_pos rfl]
    rw [Value.recordJoins, Tree.recordOfSlots, List.filterMap_cons_some hfirst, List.map_cons]
    exact congrArg _ ih

theorem recordJoins_view (s : Store) (x : NodeId) :
    (s.view x).record.recordJoins = (s.slots x).map fun slot => .text slot.join.name := by
  cases hn : s.nodes[x]? with
  | none =>
    have hslots : s.slots x = [] := by simp only [Store.slots, hn]
    rw [hslots, view]
    cases s.nodes.size with
    | zero => rfl
    | succ d =>
      rw [viewWithin, hn]
      rfl
  | some n =>
    have hlt : x < s.nodes.size := (Array.getElem?_eq_some_iff.mp hn).1
    obtain ⟨d, hd⟩ := Nat.exists_eq_add_one_of_ne_zero (Nat.ne_of_gt (Nat.zero_lt_of_lt hlt))
    rw [view, hd, viewWithin, hn]
    obtain ⟨h, _ | slots⟩ := n
    · simp only [Store.slots, hn]
      rfl
    · rw [slots_eq_of_nodes hn]
      change (Value.list (Tree.recordOfSlots _)).recordJoins = _
      rw [recordJoins_recordOfSlots, List.map_map]
      rfl

/-- After any history a condition has one slot for each append to it that succeeded, in order and
with what was appended. The join of a slot is the one named last, by the append that made the slot,
the append after it, or a call that set it; and these joins are what the record shows. After appends
alone they are those of the second append to the last one, and that of the last one again. The kind
of the first append does not matter any more once there is a second one. -/
theorem run_slots (actions : List Action) (x : NodeId) :
    run (empty.elementary actions) = run actions ∧
    (∀ a ∈ empty.elementary actions, a.isRestore = false) ∧
    ((run actions).slots x).map (·.payload) =
      ((deedsOn x actions).filterMap Deed.appended?).map (·.2.id) ∧
    (∀ p ∈ (deedsOn x actions).filterMap Deed.appended?, (run actions).Made p.2) ∧
    (∀ i slot, ((run actions).slots x)[i]? = some slot →
      (Deed.naming i 0 (deedsOn x actions)).getLast? = some slot.join) ∧
    ((run actions).view x).record.recordJoins =
      ((run actions).slots x).map (fun slot => .text slot.join.name) ∧
    ((∀ d ∈ deedsOn x actions, d.appended?.isSome = true) →
      ((run actions).slots x).map (·.join) =
        (((deedsOn x actions).filterMap Deed.appended?).map (·.1)).tail ++
          (((deedsOn x actions).filterMap Deed.appended?).map (·.1)).getLast?.toList) ∧
    ∀ others j k what rest, deedsOn x actions = .append x j what :: rest →
      deedsOn x others = .append x k what :: rest → (∃ d ∈ rest, d.appended?.isSome = true) →
      (run others).slots x = (run actions).slots x := by
  have hcalls : ∀ a ∈ empty.elementary actions, a.isRestore = false :=
    fun _ => isRestore_of_mem_elementary
  refine ⟨run_elementary actions, hcalls, ?_, fun p hp => ?_, fun i slot hslot => ?_,
    recordJoins_view _ _, fun happends => ?_, fun others j k what rest hown hother hmore => ?_⟩
  · rw [slots_run, map_payload_foldl_apply]
    rfl
  · have hmem : p ∈ (empty.deeds (empty.elementary actions)).filterMap Deed.appended? := by
      obtain ⟨d, hd, hdp⟩ := List.mem_filterMap.mp hp
      exact List.mem_filterMap.mpr ⟨d, List.mem_of_mem_filter hd, hdp⟩
    rw [← run_elementary]
    exact made_of_mem_deeds hcalls hmem
  · rw [slots_run] at hslot
    exact getLast?_naming hslot
  · rw [slots_run, map_join_of_appends happends]
  · rw [slots_run, slots_run, hown, hother]
    exact foldl_apply_congr hmore ⟨k, what.id⟩ j

/-- Appends to two conditions, one of them nested in the other and then extended, with joins set in
between, two calls that fail, and a restoring. -/
def interleaved (first : Join) : List Action :=
  [.create .none, .create .none,
    .add 0 .or [.value (.text "a"), .value (.text "eq"), .value .null] [],
    .setJoin 0 (.int 0) (.text "or"), .add 0 .and [.node 1] [], .add 1 .and [.node 0] [],
    .setJoin 0 (.bool false) (.text "or"), .setJoin 0 (.int 2) (.text "or"),
    .add 1 first [.value (.text "b"), .value (.text "lt"), .value (.int 2)] [],
    .restore (.list [.map [(.text "joinOperator", .text "or"), (.text "condition", .list [])]])
      .none .null,
    .add 1 .or [.node 4] []]

theorem run_slots_interleaved :
    ((run (interleaved .and)).slots 0)[0]? = some ⟨.or, 2⟩ ∧
      (Deed.naming 0 0 (deedsOn 0 (interleaved .and))).getLast? = some .or ∧
    (∀ d ∈ deedsOn 1 (interleaved .and), d.appended?.isSome = true) ∧
      ((run (interleaved .and)).slots 1).map (·.join) = [.or, .or] ∧
    (run (interleaved .or)).slots 1 = (run (interleaved .and)).slots 1 := by
  have hslot : ((run (interleaved .and)).slots 0)[0]? = some ⟨.or, 2⟩ := by decide +kernel
  have hdeeds (first : Join) : deedsOn 1 (interleaved first) =
      [.append 1 first (.expression 3 (.value (.text "b")) (.value (.text "lt")) (.value (.int 2))),
        .append 1 .or (.condition 4)] := by
    cases first <;> with_unfolding_all rfl
  have happends : ∀ d ∈ deedsOn 1 (interleaved .and), d.appended?.isSome = true := by
    rw [hdeeds]
    simp [Deed.appended?]
  obtain ⟨-, -, -, -, hnaming, -, -, -⟩ := run_slots (interleaved .and) 0
  obtain ⟨-, -, -, -, -, -, hjoins, hkind⟩ := run_slots (interleaved .and) 1
  refine ⟨hslot, hnaming 0 _ hslot, happends, ?_, ?_⟩
  · rw [hjoins happends, hdeeds]
    rfl
  · exact hkind (interleaved .or) .and .or _ _ (hdeeds .and) (hdeeds .or)
      ⟨_, List.mem_singleton_self _, rfl⟩

end Store

end FilterTree
