import FilterTree.Proofs.Restore.Layers
import FilterTree.Proofs.Store.Script

/-! Validation while records are restored. The expressions of a replay are made one after the other,
down to the first that is turned down or whose value cannot be kept; each is validated when it is
made, and attaching what has been built validates nothing. -/

namespace FilterTree

theorem HookSet.admits_iff (own : HookSet) (c : Context) :
    own.Admits c ↔ (Store.validate own c).result = .ok () := by
  unfold HookSet.Admits Store.validate
  cases hhook : own.validate with
  | none => simp
  | some hook =>
    simp only [Option.some.injEq, forall_eq']
    cases hr : (hook.run c).result with
    | ok v => simp
    | error f => simp [Outcome.result_bind_of_ok, Outcome.bind_eq_ok_iff]

instance (own : HookSet) (c : Context) : Decidable (own.Admits c) :=
  decidable_of_iff ((Store.validate own c).result.isOk = true) (by
    rw [HookSet.admits_iff]
    cases (Store.validate own c).result <;> simp [Except.isOk, Except.toBool])

namespace Record
open Store

mutual

/-- The contexts of the expressions, in order; a fault stands for a value that cannot be kept. -/
def leaves : Record → List (Except Fault Context)
  | .expression _ key operator v => match v.obstacle? with
    | some f => [.error f]
    | none => [.ok (context key operator v)]
  | .condition _ records => leavesAll records

def leavesAll : List Record → List (Except Fault Context)
  | [] => []
  | r :: rest => leaves r ++ leavesAll rest

end

def attempted (own : HookSet) : List (Except Fault Context) → List Attempt
  | [] => []
  | .error _ :: _ => []
  | .ok c :: rest => (own, c) :: if own.Admits c then attempted own rest else []

def Makes (own : HookSet) (leaves : List (Except Fault Context)) : Prop :=
  ∀ leaf ∈ leaves, ∃ c, leaf = .ok c ∧ own.Admits c

variable {own : HookSet}

theorem attempted_append_of_makes {a : List (Except Fault Context)} (h : Makes own a)
    (b : List (Except Fault Context)) :
    attempted own (a ++ b) = attempted own a ++ attempted own b := by
  induction a with
  | nil => rfl
  | cons o a ih =>
    obtain ⟨c, rfl, hc⟩ := h o List.mem_cons_self
    have hrest : Makes own a := fun o ho => h o (List.mem_cons_of_mem _ ho)
    rw [List.cons_append, attempted, attempted, if_pos hc, if_pos hc, ih hrest, List.cons_append]

theorem attempted_append_of_not_makes {a : List (Except Fault Context)} (h : ¬Makes own a)
    (b : List (Except Fault Context)) : attempted own (a ++ b) = attempted own a := by
  induction a with
  | nil => exact absurd (by simp [Makes]) h
  | cons o a ih =>
    cases o with
    | error e => rfl
    | ok c =>
      rw [List.cons_append, attempted, attempted]
      by_cases hc : own.Admits c
      · rw [if_pos hc, if_pos hc, ih fun hall => h ?_]
        rintro o ho
        rcases List.mem_cons.mp ho with rfl | ho
        · exact ⟨c, rfl, hc⟩
        · exact hall o ho
      · rw [if_neg hc, if_neg hc]

mutual

theorem makes_leaves_iff : ∀ r : Record, Makes own r.leaves ↔ r.Storable ∧ r.Admitted own
  | .expression _ key operator v => by
    rw [leaves, Storable, ← v.obstacle?_eq_none_iff, Admitted]
    cases v.obstacle? with
    | some f => simp [Makes]
    | none => simp [Makes]
  | .condition _ records => makes_leavesAll_iff records

theorem makes_leavesAll_iff : ∀ records : List Record,
    Makes own (leavesAll records) ↔ AllStorable records ∧ AllAdmitted own records
  | [] => by simp [Makes, leavesAll, AllStorable, AllAdmitted]
  | r :: rest => by
    have hsplit : Makes own (leavesAll (r :: rest)) ↔
        Makes own r.leaves ∧ Makes own (leavesAll rest) := List.forall_mem_append
    rw [hsplit, makes_leaves_iff r, makes_leavesAll_iff rest, AllStorable, AllAdmitted]
    tauto

end

end Record

namespace Store
open Record

variable {own : HookSet} {k : Nat}

/-! ### What a replay that succeeds says of its expressions -/

mutual

theorem admitted_of_addRecord : ∀ (r : Record) (owner : NodeId) (previous : Join) (s t : Store),
    s.isBranch owner = true → s.hooks owner = .set k own →
      (addRecord owner (.set k own) previous r s).result = .ok t → r.Admitted own
  | .expression _ key operator v, owner, previous, s, t, _, hh, h => by
    obtain ⟨u, k', own', w, hu, hw, hpassed, -⟩ := appendExpression_passed h
    rw [hh] at hu
    cases eq_of_takeHooks_set hu
    obtain ⟨-, -, rfl⟩ := Argument.normal_eq_ok_iff.mp hw
    exact (HookSet.admits_iff _ _).mpr hpassed
  | .condition _ records, owner, previous, s, t, _, _, h => by
    obtain ⟨u, hu, -, -, hnew⟩ := newCondition_set s k own
    rw [addRecord, Outcome.result_bind_of_ok _ (by rw [Outcome.result_ofExcept, hu])] at h
    obtain ⟨w, hw, -⟩ := Outcome.bind_eq_ok_iff.mp h
    exact allAdmitted_of_addRecords records _ _ u w (isBranch_iff.mpr ⟨_, _, hnew⟩)
      (hooks_eq_of_nodes hnew) hw

theorem allAdmitted_of_addRecords : ∀ (records : List Record) (owner : NodeId) (previous : Join)
    (s t : Store), s.isBranch owner = true → s.hooks owner = .set k own →
      (addRecords owner (.set k own) previous records s).result = .ok t → AllAdmitted own records
  | [], _, _, _, _, _, _, _ => trivial
  | r :: rest, owner, previous, s, t, ho, hh, h => by
    obtain ⟨u, hu, h⟩ := Outcome.bind_eq_ok_iff.mp h
    have hfirst := admitted_of_addRecord r owner previous s u ho hh hu
    obtain ⟨u', hu', hone⟩ :=
      grownOne_addRecord r owner previous s ho hh (storable_of_addRecord r hu) hfirst
    cases hu.symm.trans hu'
    exact ⟨hfirst, allAdmitted_of_addRecords rest owner r.join u t hone.isBranch hone.hooks_eq h⟩

end

theorem addRecords_isOk_iff {records : List Record} {owner : NodeId} (previous : Join) {s : Store}
    (ho : s.isBranch owner = true) (hh : s.hooks owner = .set k own) :
    (∃ t, (addRecords owner (.set k own) previous records s).result = .ok t) ↔
      Makes own (leavesAll records) := by
  rw [makes_leavesAll_iff]
  constructor
  · rintro ⟨t, h⟩
    exact ⟨allStorable_of_addRecords records h,
      allAdmitted_of_addRecords records owner previous s t ho hh h⟩
  · rintro ⟨hs, ha⟩
    obtain ⟨t, ht, -⟩ := grown_addRecords records owner previous s ho hh hs ha
    exact ⟨t, ht⟩

/-! ### The calls of a replay -/

theorem attempted_expression {s : Store} {owner : NodeId} (hh : s.hooks owner = .set k own)
    (j : Join) (key operator : String) (v : Value) :
    attempted own (leaves (.expression j key operator v)) =
      (s.attempt? (s.hooks owner) (.value (.text key)) (.value (.text operator))
        (.value v)).toList := by
  have hu : s.takeHooks (s.hooks owner) =
      .ok ({ s with nextIdentity := max s.nextIdentity (k + 1) }, .set k own) := by
    rw [hh, takeHooks_set]
  rw [leaves]
  cases hv : v.obstacle? with
  | none =>
    obtain ⟨hends, hsortable⟩ := v.obstacle?_eq_none_iff.mp hv
    have hnormal := Argument.normal_eq_ok_iff.mpr ⟨hends, hsortable, rfl⟩
    rw [attempt?_eq hu _ _ hnormal]
    dsimp only
    rw [attempted, attempted, ite_self]
    rfl
  | some e =>
    rw [attempt?, Argument.normal_value_eq_error_iff.mpr hv]
    rfl

theorem newCondition_noted_set (s : Store) (k : Nat) (own : HookSet) :
    ∃ u, s.newCondition (.set k own) = .ok (u, s.nodes.size) ∧
      u.isBranch s.nodes.size = true ∧ u.hooks s.nodes.size = .set k own ∧
      ∀ note, (s.noted note).newCondition (.set k (own.noted note)) =
        .ok (u.noted note, s.nodes.size) := by
  obtain ⟨u, hu, -, -, hnew⟩ := newCondition_set s k own
  refine ⟨u, hu, isBranch_iff.mpr ⟨_, _, hnew⟩, hooks_eq_of_nodes hnew, fun note => ?_⟩
  have hnoted : (s.noted note).newCondition ((Hooks.set k own).noted note) = _ :=
    newCondition_noted s (.set k own)
  rw [hu] at hnoted
  exact hnoted

mutual

theorem reports_addRecord : ∀ (r : Record) (owner : NodeId) (previous : Join) (s : Store),
    s.isBranch owner = true → s.hooks owner = .set k own →
      Reports ((attempted own r.leaves).filterMap Attempt.call?)
        (fun note => addRecord owner (.set k (own.noted note)) previous r (s.noted note))
        fun note => (addRecord owner (.set k own) previous r s).result.map (·.noted note)
  | .expression j key operator v, owner, previous, s, _, hh => by
    rw [attempted_expression hh, filterMap_toList]
    exact reports_appendExpression ..
  | .condition _ records, owner, previous, s, _, _ => by
    obtain ⟨u, hu, hbranch, hhooks, hnoted⟩ := newCondition_noted_set s k own
    have hrest := reports_addRecords records s.nodes.size .and u hbranch hhooks
    simp only [addRecord, hnoted, hu, Outcome.ofExcept_ok, pure_bind]
    rw [leaves]
    refine hrest.bind_result fun w => ?_
    simp only [keepLastJoin_noted]
    exact reports_attach ..

theorem reports_addRecords : ∀ (records : List Record) (owner : NodeId) (previous : Join)
    (s : Store), s.isBranch owner = true → s.hooks owner = .set k own →
      Reports ((attempted own (leavesAll records)).filterMap Attempt.call?)
        (fun note => addRecords owner (.set k (own.noted note)) previous records (s.noted note))
        fun note => (addRecords owner (.set k own) previous records s).result.map (·.noted note)
  | [], _, _, s, _, _ => .pure fun note => s.noted note
  | r :: rest, owner, previous, s, ho, hh => by
    have hfirst := reports_addRecord r owner previous s ho hh
    simp only [addRecords]
    rw [leavesAll]
    cases hr : (addRecord owner (.set k own) previous r s).result with
    | error e =>
      -- once a record has failed nothing more is attempted
      have hnot : ¬Makes own r.leaves := by
        rw [makes_leaves_iff]
        rintro ⟨hs, ha⟩
        obtain ⟨t, ht, -⟩ := grownOne_addRecord r owner previous s ho hh hs ha
        rw [hr] at ht
        cases ht
      rw [hr] at hfirst
      rw [attempted_append_of_not_makes hnot]
      simp only [Outcome.result_bind_of_error _ hr]
      exact hfirst.bind_of_error _
    | ok u =>
      have hs := storable_of_addRecord r hr
      have ha := admitted_of_addRecord r owner previous s u ho hh hr
      obtain ⟨u', hu', hone⟩ := grownOne_addRecord r owner previous s ho hh hs ha
      cases hr.symm.trans hu'
      rw [hr] at hfirst
      rw [attempted_append_of_makes ((makes_leaves_iff r).mpr ⟨hs, ha⟩), List.filterMap_append]
      simp only [Outcome.result_bind_of_ok _ hr]
      exact hfirst.bind (reports_addRecords rest owner r.join u hone.isBranch hone.hooks_eq)

end

end Store

end FilterTree
