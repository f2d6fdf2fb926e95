import FilterTree.Proofs.Store.Calls

/-! What the calls of a history that succeed do to slots: an append puts one condition or one new
expression into a new last slot, and a join is set in a slot that is there. -/

namespace FilterTree.Store
open Relation

inductive Appended where
  | condition (id : NodeId)
  | expression (id : NodeId) (key operator value : Argument)

def Appended.id : Appended → NodeId
  | .condition id => id
  | .expression id _ _ _ => id

inductive Deed where
  | append (owner : NodeId) (j : Join) (what : Appended)
  | setJoin (id : NodeId) (i : Nat) (j : Join)

def Deed.target : Deed → NodeId
  | .append owner _ _ => owner
  | .setJoin id _ _ => id

def Deed.appended? : Deed → Option (Join × Appended)
  | .append _ j what => some (j, what)
  | .setJoin _ _ _ => none

def Deed.nested? : Deed → Option NodeId
  | .append _ _ (.condition id) => some id
  | _ => none

/-- What is appended by an append with these arguments, if it succeeds. -/
def appended? (s : Store) : Arguments → Option Appended
  | ⟨.node child, none, none⟩ => some (.condition child)
  | ⟨key, some operator, some value⟩ => some (.expression s.nodes.size key operator value)
  | _ => none

def deed? (s : Store) (a : Action) : Option Deed :=
  match (s.perform a).result, a with
  | .ok _, .add owner j positional named =>
    ((Arguments.ofCall positional named).toOption.bind s.appended?).map (.append owner j)
  | .ok _, .setJoin id index join =>
    match wholeIndex? index, coerceJoin join with
    | some i, .ok j => some (.setJoin id i.toNat j)
    | _, _ => none
  | _, _ => none

def deeds (s : Store) : List Action → List Deed
  | [] => []
  | a :: rest => (s.deed? a).toList ++ (s.after a).deeds rest

/-! ### A deed and its store -/

inductive Appends (s : Store) (owner : NodeId) (j : Join) : Appended → Store → Prop where
  | condition {child : NodeId} : s.isBranch child = true → s.reaches child owner = false →
      Appends s owner j (.condition child) ((s.rebind child (s.hooks owner)).setSlots owner
        (joinLast j (s.slots owner) ++ [⟨j, child⟩]))
  | expression {t : Store} {h : Hooks} {key operator value v : Argument} :
      s.takeHooks (s.hooks owner) = .ok (t, h) → value.normal = .ok v →
      Appends s owner j (.expression s.nodes.size key operator value)
        ((t.push ⟨h, .leaf key operator.coerced v⟩).1.setSlots owner
          (joinLast j (s.slots owner) ++ [⟨j, s.nodes.size⟩]))

/-- What an elementary call does: nothing to slots, or one deed. -/
inductive Does (s : Store) : Action → Option Deed → Store → Prop where
  | fails {a : Action} : Does s a none s
  | creates {t : Store} {given h : Hooks} : s.takeHooks given = .ok (t, h) →
      Does s (.create given) none (t.push ⟨h, .branch []⟩).1
  | assigns (id : NodeId) (h : Hooks) : Does s (.assignHooks id h) none (s.setHooks id h)
  | appends {owner : NodeId} {j : Join} {positional : List Argument}
      {named : List (String × Argument)} {what : Appended} {t : Store} :
      s.isBranch owner = true → Appends s owner j what t →
      Does s (.add owner j positional named) (some (.append owner j what)) t
  | joins {id : NodeId} {index join : Value} (i : Nat) (j : Join) :
      s.isBranch id = true → i < (s.slots id).length →
      Does s (.setJoin id index join) (some (.setJoin id i j))
        (s.setSlots id ((s.slots id).modify i fun slot => { slot with join := j }))

theorem appends_of_add {s t : Store} {owner : NodeId} {j : Join} {a : Arguments}
    (h : (s.add owner j a).result = .ok t) :
    ∃ what, s.appended? a = some what ∧ Appends s owner j what t := by
  rcases add_eq_ok h with ⟨child, rfl, hc, ht⟩ | ⟨key, operator, value, rfl, ht⟩
  · obtain ⟨hr, rfl⟩ := attach_eq_ok ht
    exact ⟨_, rfl, .condition hc hr⟩
  · obtain ⟨u, k, v, hu, hv, rfl⟩ := appendExpression_eq_ok ht
    have hwhat : s.appended? ⟨key, some operator, some value⟩ =
        some (.expression s.nodes.size key operator value) := by
      cases key <;> rfl
    exact ⟨_, hwhat, .expression hu hv⟩

theorem checkIndex_eq_ok {size i : Nat} {index : Value} (h : checkIndex size index = .ok i) :
    i < size ∧ ∃ n : Int, wholeIndex? index = some n ∧ n.toNat = i := by
  unfold checkIndex at h
  split at h
  · next n hn =>
    split at h
    · next hlt =>
      cases h
      refine ⟨?_, n, hn, rfl⟩
      omega
    · cases h
  · split at h
    · cases h
    · split at h
      · split at h <;> cases h
      · cases h
    · cases h

theorem does_of_perform {s : Store} {a : Action} (ha : a.isRestore = false) :
    Does s a (s.deed? a) (s.after a) := by
  cases hr : (s.perform a).result with
  | error e =>
    rw [after_eq_of_error hr]
    simp only [deed?, hr]
    exact .fails
  | ok t =>
    rw [after_eq_of_ok hr]
    unfold deed?
    rw [hr]
    cases a with
    | create given =>
      obtain ⟨⟨u, id⟩, hu, hr⟩ := Outcome.bind_eq_ok_iff.mp hr
      rw [Outcome.result_ofExcept] at hu
      cases hr
      obtain ⟨w, k, hw, rfl, -⟩ := newCondition_eq_ok hu
      exact .creates hw
    | add owner j positional named =>
      obtain ⟨ho, a, ha, hadd⟩ := perform_add_eq_ok hr
      obtain ⟨what, hwhat, h⟩ := appends_of_add hadd
      simp only [ha, Except.toOption, Option.bind_some, hwhat, Option.map_some]
      exact .appends ho h
    | setJoin id index join =>
      rw [perform] at hr
      split at hr
      · next hid =>
        rw [Outcome.result_ofExcept] at hr
        obtain ⟨j, hj, hr⟩ := except_bind_eq_ok_iff.mp hr
        obtain ⟨i, hi, hr⟩ := except_bind_eq_ok_iff.mp hr
        obtain ⟨hlt, n, hn, rfl⟩ := checkIndex_eq_ok hi
        cases hr
        simp only [hn, hj]
        exact .joins n.toNat j hid hlt
      · simp [noMethod] at hr
    | assignHooks id h =>
      cases hr
      exact .assigns id h
    | restore => cases ha

/-! ### What a node is stays -/

theorem body_push_of_lt {s : Store} {i : NodeId} (n : Node) (h : i < s.nodes.size) :
    (s.push n).1.body i = s.body i := by
  unfold body
  rw [nodes_push, if_neg (Nat.ne_of_lt h)]

theorem body_setSlots_of_ne {s : Store} {id i : NodeId} (slots : List Slot) (h : id ≠ i) :
    (s.setSlots id slots).body i = s.body i := by
  unfold body
  rw [nodes_setSlots, if_neg h]

theorem lt_size_of_body {s : Store} {i : NodeId} {b : Body} (h : s.body i = some b) :
    i < s.nodes.size := by
  unfold body at h
  obtain ⟨n, hn, -⟩ := Option.map_eq_some_iff.mp h
  exact (Array.getElem?_eq_some_iff.mp hn).1

theorem ne_of_body_leaf {s : Store} {id i : NodeId} {key operator value : Argument}
    (hid : s.isBranch id = true) (h : s.body i = some (.leaf key operator value)) : id ≠ i := by
  rintro rfl
  unfold body at h
  rw [nodes_eq_of_isBranch hid] at h
  cases h

theorem Edit.body_leaf {s t : Store} (he : Edit s t) {i : NodeId}
    {key operator value : Argument} (h : s.body i = some (.leaf key operator value)) :
    t.body i = some (.leaf key operator value) := by
  have hlt := lt_size_of_body h
  cases he with
  | takeHooks ht => simpa only [body, takeHooks_eq_ok ht] using h
  | condition k => rw [body_push_of_lt _ hlt, h]
  | @leaf u owner k j key' operator' value' ho hu =>
    have hn := takeHooks_eq_ok hu
    rw [body_setSlots_of_ne _ (ne_of_body_leaf ho h), body_push_of_lt _ (by rw [hn]; exact hlt)]
    simpa only [body, hn] using h
  | @attach owner child j ho hc hr =>
    rw [body_setSlots_of_ne _ (ne_of_body_leaf ho h), body_rebind, h]
  | @join id k j hid => rw [body_setSlots_of_ne _ (ne_of_body_leaf hid h), h]
  | hooks id k => rw [body_setHooks, h]

theorem Edits.body_leaf {s t : Store} (he : Edits s t) {i : NodeId}
    {key operator value : Argument} (h : s.body i = some (.leaf key operator value)) :
    t.body i = some (.leaf key operator value) := by
  induction he with
  | refl => exact h
  | tail _ he ih => exact he.body_leaf ih

def Made (s : Store) : Appended → Prop
  | .condition id => s.isBranch id = true
  | .expression id key operator value => ∃ v, value.normal = .ok v ∧
      s.body id = some (.leaf key operator.coerced v)

theorem Edits.made {s t : Store} (he : Edits s t) {what : Appended} (h : s.Made what) :
    t.Made what := by
  cases what with
  | condition id => exact he.isBranch h
  | expression id key operator value =>
    obtain ⟨v, hv, hb⟩ := h
    exact ⟨v, hv, Edits.body_leaf he hb⟩

theorem Appends.made {s t : Store} {owner : NodeId} {j : Join} {what : Appended}
    (ho : s.isBranch owner = true) (h : Appends s owner j what t) : t.Made what := by
  cases h with
  | condition hc _ => exact isBranch_setSlots _ _ ((isBranch_rebind _ _ _ _).trans hc)
  | @expression u k key operator value v hu hv =>
    have hn := takeHooks_eq_ok hu
    refine ⟨v, hv, ?_⟩
    rw [body_setSlots_of_ne _ (Nat.ne_of_lt (lt_size_of_isBranch ho))]
    unfold body
    rw [nodes_push, hn, if_pos rfl]
    rfl

theorem Appends.slots {s t : Store} {owner : NodeId} {j : Join} {what : Appended}
    (ho : s.isBranch owner = true) (h : Appends s owner j what t) (x : NodeId) :
    t.slots x = if owner = x then joinLast j (s.slots owner) ++ [⟨j, what.id⟩]
      else s.slots x := by
  cases h with
  | @condition child _ _ =>
    split
    · next hx =>
      subst hx
      exact slots_setSlots_self _ ((isBranch_rebind _ _ _ _).trans ho)
    · next hx => rw [slots_setSlots_of_ne _ hx, slots_rebind]
  | @expression u k key operator value v hu hv =>
    have hou := isBranch_push_of_takeHooks hu ⟨k, .leaf key operator.coerced v⟩ ho
    split
    · next hx =>
      subst hx
      exact slots_setSlots_self _ hou
    · next hx =>
      rw [slots_setSlots_of_ne _ hx, slots_push_leaf_of_takeHooks hu]

theorem Does.made {s t : Store} {a : Action} {d : Deed} {p : Join × Appended}
    (h : Does s a (some d) t) (hp : d.appended? = some p) : t.Made p.2 := by
  cases h with
  | appends ho h =>
    cases hp
    exact h.made ho
  | joins => cases hp

theorem made_of_mem_deeds {actions : List Action} {s : Store} {p : Join × Appended}
    (hcalls : ∀ a ∈ actions, a.isRestore = false)
    (hp : p ∈ (s.deeds actions).filterMap Deed.appended?) : (actions.foldl after s).Made p.2 := by
  induction actions generalizing s with
  | nil => simp [deeds] at hp
  | cons a rest ih =>
    have hrest : ∀ b ∈ rest, b.isRestore = false := fun b hb => hcalls b (List.mem_cons_of_mem _ hb)
    rw [deeds, List.filterMap_append] at hp
    rcases List.mem_append.mp hp with hp | hp
    · obtain ⟨d, hd, hdp⟩ := List.mem_filterMap.mp hp
      have hdoes := does_of_perform (s := s) (hcalls a List.mem_cons_self)
      rw [Option.mem_toList.mp hd] at hdoes
      exact Edits.made (edits_foldl_after rest _) (hdoes.made hdp)
    · exact ih hrest hp

end FilterTree.Store
