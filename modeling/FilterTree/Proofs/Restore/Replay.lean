import FilterTree.Proofs.Store.Argument
import FilterTree.Proofs.Store.Path
import FilterTree.Proofs.Store.Edit

/-! What a replay of records builds: new nodes only, which carry exactly what the records say. The
join of a slot is first that of the record before it; the next append, or at last the join kept from
the last record, puts it right. -/

namespace FilterTree

def HookSet.Admits (h : HookSet) (c : Context) : Prop :=
  ∀ hook, h.validate = some hook → ∃ v, (hook.run c).result = .ok v

namespace Record

def lastJoin (previous : Join) : List Record → Join
  | [] => previous
  | r :: rest => lastJoin r.join rest

mutual

def count : Record → Nat
  | .expression _ _ _ _ => 1
  | .condition _ records => countAll records + 1

def countAll : List Record → Nat
  | [] => 0
  | r :: rest => count r + countAll rest

end

mutual

def Storable : Record → Prop
  | .expression _ _ _ v => v.isEndless = false ∧ v.isSortable = true
  | .condition _ records => AllStorable records

def AllStorable : List Record → Prop
  | [] => True
  | r :: rest => Storable r ∧ AllStorable rest

end

def context (key operator : String) (v : Value) : Context :=
  ⟨.value (.text key), .value (coerceOperator (.text operator)), .value v.normal⟩

mutual

def Admitted (h : HookSet) : Record → Prop
  | .expression _ key operator v => h.Admits (context key operator v)
  | .condition _ records => AllAdmitted h records

def AllAdmitted (h : HookSet) : List Record → Prop
  | [] => True
  | r :: rest => Admitted h r ∧ AllAdmitted h rest

end

mutual

theorem admitted_of_validate_eq_none {h : HookSet} (hv : h.validate = none) :
    ∀ r : Record, Admitted h r
  | .expression _ _ _ _ => fun _ hhook => by simp [hv] at hhook
  | .condition _ records => allAdmitted_of_validate_eq_none hv records

theorem allAdmitted_of_validate_eq_none {h : HookSet} (hv : h.validate = none) :
    ∀ records : List Record, AllAdmitted h records
  | [] => trivial
  | r :: rest => ⟨admitted_of_validate_eq_none hv r, allAdmitted_of_validate_eq_none hv rest⟩

end

mutual

def tree (hooks : Hooks) : Record → Tree
  | .expression _ key operator v =>
    .leaf 0 hooks ⟨.value (.text key), .value (coerceOperator (.text operator)), .value v.normal⟩
  | .condition _ records => .branch 0 hooks (trees hooks records)

def trees (hooks : Hooks) : List Record → List (Join × Tree)
  | [] => []
  | r :: rest => (r.join, tree hooks r) :: trees hooks rest

end

end Record

namespace Tree

mutual

def unnumbered : Tree → Tree
  | .leaf _ h c => .leaf 0 h c
  | .branch _ h slots => .branch 0 h (unnumberedSlots slots)

def unnumberedSlots : List (Join × Tree) → List (Join × Tree)
  | [] => []
  | (j, t) :: rest => (j, unnumbered t) :: unnumberedSlots rest

end

end Tree

namespace Store
open Record

variable {hooks : Hooks}

/-! ### Nodes that carry records -/

mutual

/-- A node, none of it below `floor`, carries what a record says. -/
def Carries (s : Store) (floor : Nat) (hooks : Hooks) : Record → NodeId → Prop
  | .expression _ key operator v, id =>
    floor ≤ id ∧ s.nodes[id]? = some ⟨hooks, .leaf (.value (.text key))
      (.value (coerceOperator (.text operator))) (.value v.normal)⟩
  | .condition _ records, id =>
    floor ≤ id ∧ ∃ slots, s.nodes[id]? = some ⟨hooks, .branch slots⟩ ∧
      CarriesAll s floor hooks records slots

def CarriesAll (s : Store) (floor : Nat) (hooks : Hooks) : List Record → List Slot → Prop
  | [], slots => slots = []
  | r :: rest, slots => ∃ payload more, slots = ⟨r.join, payload⟩ :: more ∧
      Carries s floor hooks r payload ∧ CarriesAll s floor hooks rest more

end

mutual

theorem Carries.mono {s t : Store} {floor low : Nat} (hlow : low ≤ floor)
    (hst : ∀ i n, floor ≤ i → s.nodes[i]? = some n → t.nodes[i]? = some n) :
    ∀ r id, s.Carries floor hooks r id → t.Carries low hooks r id
  | .expression _ _ _ _, id, ⟨hid, hn⟩ => ⟨hlow.trans hid, hst id _ hid hn⟩
  | .condition _ records, id, ⟨hid, slots, hn, hall⟩ =>
    ⟨hlow.trans hid, slots, hst id _ hid hn, CarriesAll.mono hlow hst records slots hall⟩

theorem CarriesAll.mono {s t : Store} {floor low : Nat} (hlow : low ≤ floor)
    (hst : ∀ i n, floor ≤ i → s.nodes[i]? = some n → t.nodes[i]? = some n) :
    ∀ records slots, s.CarriesAll floor hooks records slots → t.CarriesAll low hooks records slots
  | [], _, h => h
  | r :: rest, _, ⟨payload, more, heq, hr, hrest⟩ =>
    ⟨payload, more, heq, Carries.mono hlow hst r payload hr,
      CarriesAll.mono hlow hst rest more hrest⟩

end

mutual

theorem Carries.of_mem_ids {s : Store} {floor : Nat} :
    ∀ r id d i, s.Carries floor hooks r id → i ∈ (s.viewWithin d id).ids →
      floor ≤ i ∧ ∃ b, s.nodes[i]? = some ⟨hooks, b⟩
  | .expression _ key operator v, id, d, i, ⟨hid, hn⟩, hi => by
    have hii : i = id := by
      cases d with
      | zero => simpa [viewWithin, Tree.ids, Tree.idsOfSlots] using hi
      | succ d => simpa [viewWithin, hn, Tree.ids] using hi
    subst hii
    exact ⟨hid, _, hn⟩
  | .condition _ records, id, d, i, ⟨hid, slots, hn, hall⟩, hi => by
    cases d with
    | zero =>
      have hii : i = id := by simpa [viewWithin, Tree.ids, Tree.idsOfSlots] using hi
      subst hii
      exact ⟨hid, _, hn⟩
    | succ d =>
      rw [ids_viewWithin_succ, slots_eq_of_nodes hn, List.mem_cons, List.mem_flatMap] at hi
      rcases hi with rfl | ⟨payload, hp, hi⟩
      · exact ⟨hid, _, hn⟩
      · exact CarriesAll.of_mem_ids records slots d payload i hall hp hi

theorem CarriesAll.of_mem_ids {s : Store} {floor : Nat} :
    ∀ records slots d payload i, s.CarriesAll floor hooks records slots →
      payload ∈ slots.map (·.payload) → i ∈ (s.viewWithin d payload).ids →
      floor ≤ i ∧ ∃ b, s.nodes[i]? = some ⟨hooks, b⟩
  | [], slots, d, payload, i, h, hp, _ => by simp [show slots = [] from h] at hp
  | r :: rest, slots, d, payload, i, ⟨first, more, heq, hr, hrest⟩, hp, hi => by
    subst heq
    rcases List.mem_cons.mp hp with rfl | hp
    · exact Carries.of_mem_ids r _ d i hr hi
    · exact CarriesAll.of_mem_ids rest more d payload i hrest hp hi

end

mutual

theorem Carries.view {s : Store} {floor : Nat} :
    ∀ r id d, s.Carries floor hooks r id → r.count ≤ d →
      (s.viewWithin d id).unnumbered = r.tree hooks
  | .expression _ key operator v, id, 0, _, hd => by simp [count] at hd
  | .expression _ key operator v, id, d + 1, ⟨_, hn⟩, _ => by
    rw [viewWithin, hn]
    rfl
  | .condition _ records, id, 0, _, hd => by simp [count] at hd
  | .condition _ records, id, d + 1, ⟨_, slots, hn, hall⟩, hd => by
    rw [viewWithin, hn]
    simp only [Tree.unnumbered, tree]
    rw [CarriesAll.view records slots d hall (by simpa [count] using hd)]

theorem CarriesAll.view {s : Store} {floor : Nat} :
    ∀ records slots d, s.CarriesAll floor hooks records slots → countAll records ≤ d →
      Tree.unnumberedSlots (slots.map fun slot => (slot.join, s.viewWithin d slot.payload)) =
        trees hooks records
  | [], slots, d, h, _ => by
    rw [show slots = [] from h]
    rfl
  | r :: rest, slots, d, ⟨payload, more, heq, hr, hrest⟩, hd => by
    subst heq
    have hd' : r.count + countAll rest ≤ d := hd
    simp only [List.map_cons, Tree.unnumberedSlots, trees]
    rw [Carries.view r payload d hr (by omega), CarriesAll.view rest more d hrest (by omega)]

end

/-! ### Adding records -/

theorem result_validate {h : HookSet} {c : Context} (hc : h.Admits c) :
    (validate h c).result = .ok () := by
  unfold validate
  cases hv : h.validate with
  | none => rfl
  | some hook =>
    obtain ⟨v, hrun⟩ := hc hook hv
    simp only [hrun]

theorem result_newExpression {s : Store} {k : Nat} {h : HookSet} {key operator : String}
    {v : Value} (hc : h.Admits (context key operator v)) (he : v.isEndless = false)
    (hk : v.isSortable = true) :
    (s.newExpression (.value (.text key)) (.value (.text operator)) (.value v) (.set k h)).result =
      .ok (({ s with nextIdentity := max s.nextIdentity (k + 1) } : Store).push
        ⟨.set k h, .leaf (.value (.text key)) (.value (coerceOperator (.text operator)))
          (.value v.normal)⟩) := by
  have hn := Argument.normal_eq_ok_iff.mpr ⟨he, hk, rfl⟩
  unfold newExpression
  rw [Outcome.result_bind_of_ok _ (by rw [Outcome.result_ofExcept, hn])]
  rw [Outcome.result_bind_of_ok _ (by rw [Outcome.result_ofExcept, takeHooks_set])]
  exact Outcome.result_bind_of_ok _ (result_validate hc)

/-- What adding records to a condition does. -/
structure Grown (hooks : Hooks) (owner : NodeId) (previous : Join) (records : List Record)
    (s t : Store) : Prop where
  size : t.nodes.size = s.nodes.size + countAll records
  frame : ∀ i < s.nodes.size, i ≠ owner → t.nodes[i]? = s.nodes[i]?
  isBranch : t.isBranch owner = true
  hooks_eq : t.hooks owner = hooks
  slots : ∃ news, joinLast (lastJoin previous records) (t.slots owner) =
      joinLast previous (s.slots owner) ++ news ∧ t.CarriesAll s.nodes.size hooks records news

structure GrownOne (hooks : Hooks) (owner : NodeId) (previous : Join) (record : Record)
    (s t : Store) : Prop where
  size : t.nodes.size = s.nodes.size + record.count
  frame : ∀ i < s.nodes.size, i ≠ owner → t.nodes[i]? = s.nodes[i]?
  isBranch : t.isBranch owner = true
  hooks_eq : t.hooks owner = hooks
  slots : ∃ payload, t.slots owner = joinLast previous (s.slots owner) ++ [⟨previous, payload⟩] ∧
      t.Carries s.nodes.size hooks record payload

theorem Grown.nil {s : Store} {owner : NodeId} (previous : Join) (ho : s.isBranch owner = true)
    (hh : s.hooks owner = hooks) : Grown hooks owner previous [] s s where
  size := rfl
  frame _ _ _ := rfl
  isBranch := ho
  hooks_eq := hh
  slots := ⟨[], (List.append_nil _).symm, rfl⟩

theorem Grown.cons {s u t : Store} {owner : NodeId} {previous : Join} {r : Record}
    {rest : List Record} (ho : owner < s.nodes.size) (hr : GrownOne hooks owner previous r s u)
    (hrest : Grown hooks owner r.join rest u t) : Grown hooks owner previous (r :: rest) s t where
  size := by rw [hrest.size, hr.size, countAll, Nat.add_assoc]
  frame i hi hne := by
    have hiu : i < u.nodes.size := by rw [hr.size]; omega
    rw [hrest.frame i hiu hne, hr.frame i hi hne]
  isBranch := hrest.isBranch
  hooks_eq := hrest.hooks_eq
  slots := by
    obtain ⟨payload, hslot, hp⟩ := hr.slots
    obtain ⟨news, hnews, hall⟩ := hrest.slots
    have hsu : s.nodes.size ≤ u.nodes.size := by rw [hr.size]; omega
    refine ⟨⟨r.join, payload⟩ :: news, ?_, payload, news, rfl, ?_, ?_⟩
    -- the slot of `r` was appended with the join before it; the rest of the records sets it to the
    -- join of `r` itself
    · rw [lastJoin, hnews, hslot, joinLast_append, List.append_assoc]
      rfl
    · refine Carries.mono le_rfl (fun i n hi hn => ?_) r payload hp
      have hiu : i < u.nodes.size := (Array.getElem?_eq_some_iff.mp hn).1
      rw [hrest.frame i hiu (Nat.ne_of_gt (ho.trans_le hi)), hn]
    · exact CarriesAll.mono hsu (fun _ _ _ hn => hn) rest news hall

theorem result_appendExpression {s : Store} {owner : NodeId} {k : Nat} {h : HookSet}
    (hh : s.hooks owner = .set k h) (ho : s.isBranch owner = true) (j : Join)
    {key operator : String} {v : Value} (hc : h.Admits (context key operator v))
    (he : v.isEndless = false) (hk : v.isSortable = true) :
    (s.appendExpression owner j (.value (.text key)) (.value (.text operator)) (.value v)).result =
      .ok ((({ s with nextIdentity := max s.nextIdentity (k + 1) } : Store).push
          ⟨.set k h, .leaf (.value (.text key)) (.value (coerceOperator (.text operator)))
            (.value v.normal)⟩).1.setSlots owner
        (joinLast j (s.slots owner) ++ [⟨j, s.nodes.size⟩])) := by
  unfold appendExpression
  rw [hh, Outcome.result_bind_of_ok _ (result_newExpression hc he hk)]
  simp only [result_append, push]
  have hne : owner ≠ s.nodes.size := Nat.ne_of_lt (lt_size_of_isBranch ho)
  -- the new leaf is no branch, so the slots of the owner are those from before
  have hslots := slots_push_of_ne (s := { s with nextIdentity := max s.nextIdentity (k + 1) })
    ⟨.set k h, .leaf (.value (.text key)) (.value (coerceOperator (.text operator)))
      (.value v.normal)⟩ hne
  rw [push] at hslots
  rw [hslots]
  rfl

theorem grownOne_expression {s : Store} {owner : NodeId} {k : Nat} {h : HookSet}
    (ho : s.isBranch owner = true) (hh : s.hooks owner = .set k h) (previous j : Join)
    {key operator : String} {v : Value} (hc : h.Admits (context key operator v))
    (he : v.isEndless = false) (hk : v.isSortable = true) :
    ∃ t, (addRecord owner (.set k h) previous (.expression j key operator v) s).result = .ok t ∧
      GrownOne (.set k h) owner previous (.expression j key operator v) s t := by
  have hlt := lt_size_of_isBranch ho
  refine ⟨_, result_appendExpression hh ho previous hc he hk, ?_⟩
  have hbranch : (({ s with nextIdentity := max s.nextIdentity (k + 1) } : Store).push
      ⟨.set k h, .leaf (.value (.text key)) (.value (coerceOperator (.text operator)))
        (.value v.normal)⟩).1.isBranch owner = true := isBranch_push _ ho
  refine ⟨?_, fun i hi hne => ?_, isBranch_setSlots _ _ hbranch, ?_, s.nodes.size,
    slots_setSlots_self _ hbranch, le_rfl, ?_⟩
  · rw [size_setSlots, size_push, count]
  · rw [nodes_setSlots, if_neg hne.symm, nodes_push, if_neg (Nat.ne_of_lt hi)]
  · rw [hooks_setSlots, ← hh]
    exact hooks_eq_of_nodes_eq (by rw [nodes_push, if_neg (Nat.ne_of_lt hlt)])
  · rw [nodes_setSlots, if_neg (Nat.ne_of_lt hlt), nodes_push]
    exact if_pos rfl

theorem lastJoin_of_getLast? {records : List Record} {last : Record} (previous : Join)
    (h : records.getLast? = some last) : lastJoin previous records = last.join := by
  induction records generalizing previous with
  | nil => simp at h
  | cons r rest ih =>
    cases rest with
    | nil =>
      have : r = last := by simpa using h
      rw [← this]
      rfl
    | cons next rest => exact ih r.join (by simpa using h)

theorem Grown.keepLastJoin {s t : Store} {id : NodeId} {previous : Join} {records : List Record}
    (hg : Grown hooks id previous records s t) (hid : id < s.nodes.size) (hs : s.slots id = []) :
    (t.keepLastJoin id records).nodes.size = t.nodes.size ∧
    (∀ i, i ≠ id → (t.keepLastJoin id records).nodes[i]? = t.nodes[i]?) ∧
    ∃ news, (t.keepLastJoin id records).nodes[id]? = some ⟨hooks, .branch news⟩ ∧
      (t.keepLastJoin id records).CarriesAll s.nodes.size hooks records news := by
  obtain ⟨news, hnews, hall⟩ := hg.slots
  rw [hs] at hnews
  have hn := nodes_eq_of_isBranch hg.isBranch
  rw [hg.hooks_eq] at hn
  unfold Store.keepLastJoin
  cases hlast : records.getLast? with
  | none =>
    -- without records no join has to be put right
    obtain rfl := List.getLast?_eq_none_iff.mp hlast
    have hempty : t.slots id = [] := by
      have h0 : news = [] := hall
      rw [h0] at hnews
      have hlen := congrArg List.length hnews
      rw [joinLast_eq_modify, List.length_modify] at hlen
      exact List.eq_nil_of_length_eq_zero hlen
    rw [hempty] at hn
    exact ⟨rfl, fun _ _ => rfl, [], hn, rfl⟩
  | some last =>
    rw [lastJoin_of_getLast? previous hlast] at hnews
    refine ⟨size_setSlots .., fun i hi => ?_, news, ?_, ?_⟩
    · rw [nodes_setSlots, if_neg hi.symm]
    · rw [nodes_setSlots, if_pos rfl, hn, hnews]
      rfl
    · refine CarriesAll.mono le_rfl (fun i n hi hni => ?_) records news hall
      rw [nodes_setSlots, if_neg (Nat.ne_of_lt (hid.trans_le hi)), hni]

theorem grownOne_attach {s w : Store} {owner child : NodeId} (previous : Join) {r : Record}
    (howner : owner < s.nodes.size) (ho : w.isBranch owner = true) (hh : w.hooks owner = hooks)
    (hslots : w.slots owner = s.slots owner) (hsize : w.nodes.size = s.nodes.size + r.count)
    (hframe : ∀ i < s.nodes.size, i ≠ owner → w.nodes[i]? = s.nodes[i]?)
    (hc : w.Carries s.nodes.size hooks r child) :
    ∃ t, (w.attach owner previous child).result = .ok t ∧
      GrownOne hooks owner previous r s t := by
  have hr : w.reaches child owner = false := by
    rw [Bool.eq_false_iff, reaches, ne_eq, List.contains_iff_mem]
    -- what lies below the child is new, and the owner is old
    intro hmem
    exact absurd (Carries.of_mem_ids r child _ owner hc hmem).1 (Nat.not_le.mpr howner)
  -- Everything below the child has the owner's hooks, so that rebinding changes nothing.
  have hre (i : NodeId) : (w.rebind child (w.hooks owner)).nodes[i]? = w.nodes[i]? := by
    rw [nodes_rebind]
    split
    · next hi =>
      obtain ⟨b, hb⟩ := (Carries.of_mem_ids r child _ i hc hi).2
      rw [hb, hh]
      rfl
    · rfl
  have hbranch := (isBranch_rebind w child owner (w.hooks owner)).trans ho
  refine ⟨_, result_attach_of_not_reaches previous hr, ?_⟩
  refine ⟨?_, fun i hi hne => ?_, isBranch_setSlots _ _ hbranch, ?_, child, ?_, ?_⟩
  · rw [size_setSlots, size_rebind, hsize]
  · rw [nodes_setSlots, if_neg hne.symm, hre, hframe i hi hne]
  · rw [hooks_setSlots, hooks_eq_of_nodes_eq (hre owner), hh]
  · rw [slots_setSlots_self _ hbranch, hslots]
  · refine Carries.mono le_rfl (fun i n hi hn => ?_) r child hc
    rw [nodes_setSlots, if_neg (Nat.ne_of_lt (howner.trans_le hi)), hre, hn]

theorem newCondition_set (s : Store) (k : Nat) (h : HookSet) :
    ∃ u, s.newCondition (.set k h) = .ok (u, s.nodes.size) ∧
      u.nodes.size = s.nodes.size + 1 ∧
      (∀ i < s.nodes.size, u.nodes[i]? = s.nodes[i]?) ∧
      u.nodes[s.nodes.size]? = some ⟨.set k h, .branch []⟩ := by
  let taken : Store := { s with nextIdentity := max s.nextIdentity (k + 1) }
  refine ⟨(taken.push ⟨.set k h, .branch []⟩).1, rfl, size_push .., fun i hi => ?_, ?_⟩
  · rw [nodes_push]
    exact if_neg (Nat.ne_of_lt hi)
  · rw [nodes_push]
    exact if_pos rfl

mutual

theorem grown_addRecords {k : Nat} {h : HookSet} :
    ∀ records owner previous (s : Store), s.isBranch owner = true → s.hooks owner = .set k h →
      AllStorable records → AllAdmitted h records →
      ∃ t, (addRecords owner (.set k h) previous records s).result = .ok t ∧
        Grown (.set k h) owner previous records s t
  | [], _, previous, s, ho, hh, _, _ => ⟨s, rfl, .nil previous ho hh⟩
  | r :: rest, owner, previous, s, ho, hh, hall, hadm => by
    obtain ⟨u, hu, hone⟩ := grownOne_addRecord r owner previous s ho hh hall.1 hadm.1
    obtain ⟨t, ht, hrest⟩ :=
      grown_addRecords rest owner r.join u hone.isBranch hone.hooks_eq hall.2 hadm.2
    refine ⟨t, ?_, .cons (lt_size_of_isBranch ho) hone hrest⟩
    rw [addRecords, Outcome.result_bind_of_ok _ hu, ht]

theorem grownOne_addRecord {k : Nat} {h : HookSet} :
    ∀ record owner previous (s : Store), s.isBranch owner = true → s.hooks owner = .set k h →
      record.Storable → record.Admitted h →
      ∃ t, (addRecord owner (.set k h) previous record s).result = .ok t ∧
        GrownOne (.set k h) owner previous record s t
  | .expression j _ _ _, _, previous, _, ho, hh, hs, hadm =>
    grownOne_expression ho hh previous j hadm hs.1 hs.2
  | .condition j records, owner, previous, s, ho, hh, hs, hadm => by
    have hlt := lt_size_of_isBranch ho
    obtain ⟨u, hu, hsize, hold, hnew⟩ := newCondition_set s k h
    -- the nested condition is filled before it is attached, so its owner is untouched until then
    obtain ⟨w, hw, hg⟩ := grown_addRecords records s.nodes.size .and u
      (isBranch_iff.mpr ⟨_, _, hnew⟩) (hooks_eq_of_nodes hnew) hs hadm
    obtain ⟨hksize, hkeep, news, hnews, hall⟩ :=
      hg.keepLastJoin (by rw [hsize]; exact Nat.lt_succ_self _) (slots_eq_of_nodes hnew)
    have hsame (i : NodeId) (hi : i < s.nodes.size) :
        (w.keepLastJoin s.nodes.size records).nodes[i]? = s.nodes[i]? := by
      rw [hkeep i (Nat.ne_of_lt hi),
        hg.frame i (by rw [hsize]; exact Nat.lt_succ_of_lt hi) (Nat.ne_of_lt hi), hold i hi]
    have hn := (hsame owner hlt).trans (nodes_eq_of_isBranch ho)
    obtain ⟨t, ht, hone⟩ := grownOne_attach previous (r := .condition j records) hlt
      (isBranch_iff.mpr ⟨_, _, hn⟩) ((hooks_eq_of_nodes hn).trans hh) (slots_eq_of_nodes hn)
      (by rw [hksize, hg.size, hsize, count]; omega) (fun i hi _ => hsame i hi)
      ⟨le_rfl, news, hnews, CarriesAll.mono (by rw [hsize]; exact Nat.le_succ _)
        (fun _ _ _ hni => hni) records news hall⟩
    refine ⟨t, ?_, hone⟩
    rw [addRecord, Outcome.result_bind_of_ok _ (by rw [Outcome.result_ofExcept, hu])]
    simp only
    rw [Outcome.result_bind_of_ok _ hw, ht]

end

/-- Where no leaf is turned down a replay succeeds, and what it builds is seen as the records
say. -/
theorem replay_eq_ok {k : Nat} {h : HookSet} {records : List Record} (hr : AllStorable records)
    (hadm : AllAdmitted h records) (s : Store) :
    ∃ t, (s.replay (.set k h) records).result = .ok (t, s.nodes.size) ∧
      (∀ i < s.nodes.size, t.nodes[i]? = s.nodes[i]?) ∧
      (t.view s.nodes.size).unnumbered = .branch 0 (.set k h) (trees (.set k h) records) := by
  obtain ⟨u, hu, hsize, hold, hnew⟩ := newCondition_set s k h
  have hlt : s.nodes.size < u.nodes.size := by rw [hsize]; exact Nat.lt_succ_self _
  obtain ⟨w, hw, hg⟩ := grown_addRecords records s.nodes.size .and u
    (isBranch_iff.mpr ⟨_, _, hnew⟩) (hooks_eq_of_nodes hnew) hr hadm
  obtain ⟨hksize, hkeep, news, hnews, hall⟩ := hg.keepLastJoin hlt (slots_eq_of_nodes hnew)
  have hcarries : (w.keepLastJoin s.nodes.size records).Carries s.nodes.size (.set k h)
      (.condition .and records) s.nodes.size :=
    ⟨le_rfl, news, hnews, CarriesAll.mono hlt.le (fun _ _ _ hn => hn) records news hall⟩
  refine ⟨_, ?_, fun i hi => ?_, hcarries.view _ _ _ ?_⟩
  · unfold replay
    rw [Outcome.result_bind_of_ok _ (by rw [Outcome.result_ofExcept, hu])]
    simp only
    rw [Outcome.result_bind_of_ok _ hw]
    rfl
  · rw [hkeep i (Nat.ne_of_lt hi), hg.frame i (hi.trans hlt) (Nat.ne_of_lt hi), hold i hi]
  · rw [hksize, hg.size, hsize, count]
    omega

end Store

end FilterTree
