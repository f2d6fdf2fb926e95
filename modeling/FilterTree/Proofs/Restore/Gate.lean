import FilterTree.Proofs.Restore.Validation
import FilterTree.Proofs.Restore.Separation
import FilterTree.Proofs.Store.Rebuilt

/-! Validation as the gate of a store. An expression comes in just when its validation lets it, a
failure of the hook is what the caller gets to see, and every expression that is there has passed the
hooks of the condition that made it. -/

namespace FilterTree

/-- The validation hook of a hook set turns a context down. -/
def HookSet.Refuses (own : HookSet) (c : Context) (f : Fault) : Prop :=
  ∃ hook, own.validate = some hook ∧ (hook.run c).result = .error f

/-- What a caller sees of the fault of a validation: a rejection as it is, all else inside one. -/
def Context.rejecting (c : Context) : Fault → Fault
  | .rejected message cause => .rejected message cause
  | f => .rejected s!"Expression '{c.key.plain}' failed validation: {f.message}" (some f.kind)

namespace Store
open Record Relation

variable {own : HookSet} {s t : Store}

/-! ### Refusals -/

theorem plainText_of_text {v : Value} (h : v.text?.isSome = true) : v.plainText = .ok v.plain := by
  cases v <;> simp [Value.text?] at h <;> rfl

theorem result_validate_of_refuses {c : Context} {f : Fault} {v : Value} (hkey : c.key = .value v)
    (hv : v.text?.isSome = true) (h : own.Refuses c f) :
    (validate own c).result = .error (c.rejecting f) := by
  obtain ⟨hook, hown, hrun⟩ := h
  have htext : c.key.plainText = Pure.pure c.key.plain := by
    rw [hkey, Operand.plainText, plainText_of_text hv]
    rfl
  unfold validate
  simp only [hown, hrun, Outcome.bind_mk_ok]
  cases f <;> first | rfl | (simp only [rejection, htext, pure_bind]; rfl)

theorem Refuses.not_admits {c : Context} {f : Fault} (h : own.Refuses c f) : ¬own.Admits c := by
  obtain ⟨hook, hown, hrun⟩ := h
  intro hadmits
  obtain ⟨v, hv⟩ := hadmits hook hown
  rw [hrun] at hv
  cases hv

/-! ### Appending -/

/-- An append that gets as far as validation: its arguments are texts and a value, which has been
normalised, and `own` is the hook set that its condition has. -/
structure Passes (s : Store) (owner : NodeId) (positional : List Argument)
    (named : List (String × Argument)) (own : HookSet) (key operator value : Argument) : Prop where
  branch : s.isBranch owner = true
  keyText : (argumentText? key).isSome = true
  operatorText : (argumentText? operator).isSome = true
  normal : ∃ given, Arguments.ofCall positional named = .ok ⟨key, some operator, some given⟩ ∧
    given.normal = .ok value
  hooks : ∃ u k, s.takeHooks (s.hooks owner) = .ok (u, .set k own)

/-- An append that would get as far as validation, had its value a normal form. -/
structure Halts (s : Store) (owner : NodeId) (positional : List Argument)
    (named : List (String × Argument)) (e : Fault) : Prop where
  branch : s.isBranch owner = true
  unkept : ∃ key operator given,
    Arguments.ofCall positional named = .ok ⟨key, some operator, some given⟩ ∧
      (argumentText? key).isSome = true ∧ (argumentText? operator).isSome = true ∧
      given.normal = .error e

theorem Passes.attempts_eq {owner : NodeId} {positional : List Argument}
    {named : List (String × Argument)} {key operator value : Argument}
    (h : Passes s owner positional named own key operator value) (j : Join) :
    s.attempts (.add owner j positional named) = [(own, s.contextOf key operator value)] := by
  obtain ⟨given, ha, hv⟩ := h.normal
  obtain ⟨u, k, hu⟩ := h.hooks
  simp only [attempts, h.branch, ha, addAttempts]
  rw [if_pos ⟨h.keyText, h.operatorText⟩, attempt?_eq hu key operator hv]
  rfl

theorem exists_passes_of_mem {owner : NodeId} {j : Join} {positional : List Argument}
    {named : List (String × Argument)} {p : Attempt}
    (h : p ∈ s.attempts (.add owner j positional named)) :
    ∃ own key operator value, Passes s owner positional named own key operator value := by
  rw [attempts] at h
  split at h
  · next a ho ha =>
    unfold addAttempts at h
    split at h
    · next key operator given =>
      split at h
      · next htexts =>
        unfold attempt? at h
        split at h
        · next v u k own hv hu =>
          exact ⟨own, key, operator, v, ho, htexts.1, htexts.2, ⟨given, ha, hv⟩, u, k, hu⟩
        · simp at h
      · simp at h
    · simp at h
  · simp at h

section
variable {owner : NodeId} {positional : List Argument} {named : List (String × Argument)}
variable {key operator value : Argument}

theorem perform_add_eq_appendExpression {given : Argument} (ho : s.isBranch owner = true)
    (ha : Arguments.ofCall positional named = .ok ⟨key, some operator, some given⟩)
    (hk : (argumentText? key).isSome = true) (hop : (argumentText? operator).isSome = true)
    (j : Join) : s.perform (.add owner j positional named) =
      s.appendExpression owner j key operator given := by
  have hkeyed : ∀ id, key = .node id → s.isBranch id = false := by
    rintro id rfl
    cases hk
  obtain ⟨name, hname⟩ := Option.isSome_iff_exists.mp hk
  rw [perform, if_pos ho, ha, Outcome.ofExcept_ok, pure_bind, add_keyed hkeyed, hname]
  exact if_pos hop

theorem Passes.perform_eq (h : Passes s owner positional named own key operator value) (j : Join) :
    ∃ given, given.normal = .ok value ∧ s.perform (.add owner j positional named) =
      s.appendExpression owner j key operator given := by
  obtain ⟨given, ha, hv⟩ := h.normal
  exact ⟨given, hv, perform_add_eq_appendExpression h.branch ha h.keyText h.operatorText j⟩

theorem kind_ne_validation_of_normal {a : Argument} {e : Fault} (h : a.normal = .error e) :
    e.kind ≠ .validation := by
  rcases a.fault_of_normal h with rfl | rfl <;> exact nofun

theorem Halts.failed {e : Fault} (h : Halts s owner positional named e) (j : Join) :
    s.attempts (.add owner j positional named) = [] ∧
      (s.perform (.add owner j positional named)).result = .error e ∧ e.kind ≠ .validation := by
  obtain ⟨key, operator, given, ha, hk, hop, he⟩ := h.unkept
  refine ⟨?_, ?_, kind_ne_validation_of_normal he⟩
  · simp only [attempts, h.branch, ha, addAttempts]
    rw [if_pos ⟨hk, hop⟩, attempt?, he]
    rfl
  · rw [perform_add_eq_appendExpression h.branch ha hk hop, appendExpression,
      newExpression_of_error he]
    rfl

theorem Passes.added (h : Passes s owner positional named own key operator value) (j : Join)
    (hc : own.Admits (s.contextOf key operator value)) :
    ∃ t, (s.perform (.add owner j positional named)).result = .ok t ∧
      t.slots owner = joinLast j (s.slots owner) ++ [⟨j, s.nodes.size⟩] ∧
      t.body s.nodes.size = some (.leaf key operator.coerced value) := by
  obtain ⟨given, hv, hperform⟩ := h.perform_eq j
  obtain ⟨u, k, hu⟩ := h.hooks
  have happend : (s.appendExpression owner j key operator given).result = .ok
      ((u.push ⟨.set k own, .leaf key operator.coerced value⟩).1.setSlots owner
        (joinLast j (s.slots owner) ++ [⟨j, s.nodes.size⟩])) := by
    unfold appendExpression
    rw [newExpression_set hu key operator hv, Outcome.result_bind_of_ok _
      (Outcome.result_bind_of_ok _ (result_validate hc)), result_append,
      slots_push_leaf_of_takeHooks hu]
    exact congrArg (fun n => Except.ok (setSlots _ owner (_ ++ [⟨j, n⟩])))
      (congrArg Array.size (takeHooks_eq_ok hu))
  have happends : Appends s owner j (.expression s.nodes.size key operator given) _ :=
    .expression hu hv
  obtain ⟨v, hv', hbody⟩ := happends.made h.branch
  cases hv.symm.trans hv'
  exact ⟨_, by rw [hperform, happend], (happends.slots h.branch owner).trans (if_pos rfl), hbody⟩

theorem Passes.refused (h : Passes s owner positional named own key operator value) (j : Join)
    {f : Fault} (hf : own.Refuses (s.contextOf key operator value) f) :
    (s.perform (.add owner j positional named)).result =
      .error ((s.contextOf key operator value).rejecting f) := by
  obtain ⟨given, hv, hperform⟩ := h.perform_eq j
  obtain ⟨u, k, hu⟩ := h.hooks
  obtain ⟨v, rfl, hkey⟩ := exists_text_of_argumentText? h.keyText
  have hvalidate := result_validate_of_refuses rfl hkey hf
  rw [hperform, appendExpression, newExpression_set hu _ operator hv,
    Outcome.result_bind_of_error _ (Outcome.result_bind_of_error _ hvalidate)]

end

/-! ### Restoring -/

section
variable {k : Nat} {c : Context} {f : Fault}

def fault? (own : HookSet) : List (Except Fault Context) → Option Fault
  | [] => none
  | .error e :: _ => some e
  | .ok c :: rest => match (validate own c).result with
    | .error e => some e
    | .ok _ => fault? own rest

theorem fault?_append (a b : List (Except Fault Context)) :
    fault? own (a ++ b) = (fault? own a).or (fault? own b) := by
  induction a with
  | nil => rfl
  | cons leaf a ih =>
    cases leaf with
    | error e => rfl
    | ok c =>
      rw [List.cons_append, fault?, fault?]
      cases (validate own c).result with
      | error e => rfl
      | ok _ => exact ih

theorem fault?_eq_none_iff {a : List (Except Fault Context)} :
    fault? own a = none ↔ Makes own a := by
  induction a with
  | nil => simp [fault?, Makes]
  | cons leaf a ih =>
    cases leaf with
    | error e => simp [fault?, Makes]
    | ok c =>
      have hsplit : Makes own (.ok c :: a) ↔ own.Admits c ∧ Makes own a := by simp [Makes]
      rw [fault?, hsplit, HookSet.admits_iff, ← ih]
      cases (validate own c).result <;> simp

theorem fault?_of_refuses {leaves : List (Except Fault Context)}
    (hkeys : ∀ c, .ok c ∈ leaves → ∃ key : String, c.key = .value (.text key))
    (hc : (own, c) ∈ attempted own leaves) (hf : own.Refuses c f) :
    fault? own leaves = some (c.rejecting f) := by
  induction leaves with
  | nil => cases hc
  | cons leaf rest ih =>
    cases leaf with
    | error e => cases hc
    | ok d =>
      rw [attempted] at hc
      by_cases hd : own.Admits d
      · rw [fault?, result_validate hd]
        rw [if_pos hd] at hc
        rcases List.mem_cons.mp hc with heq | hc
        · cases heq
          exact absurd hd (Refuses.not_admits hf)
        · exact ih (fun c hc => hkeys c (List.mem_cons_of_mem _ hc)) hc
      · rw [if_neg hd] at hc
        cases List.mem_singleton.mp hc
        obtain ⟨key, hkey⟩ := hkeys c List.mem_cons_self
        rw [fault?, result_validate_of_refuses hkey rfl hf]

mutual

theorem key_of_mem_leaves : ∀ (r : Record) (c : Context), .ok c ∈ r.leaves →
    ∃ key : String, c.key = .value (.text key)
  | .expression _ key operator v, c, h => by
    rw [leaves] at h
    split at h
    · cases List.mem_singleton.mp h
    · cases List.mem_singleton.mp h
      exact ⟨key, rfl⟩
  | .condition _ records, c, h => key_of_mem_leavesAll records c h

theorem key_of_mem_leavesAll : ∀ (records : List Record) (c : Context), .ok c ∈ leavesAll records →
    ∃ key : String, c.key = .value (.text key)
  | [], _, h => by cases h
  | r :: rest, c, h => (List.mem_append.mp h).elim (key_of_mem_leaves r c)
      (key_of_mem_leavesAll rest c)

end

mutual

theorem normal_of_mem_leaves : ∀ (r : Record) (e : Fault), .error e ∈ r.leaves →
    ∃ a : Argument, a.normal = .error e
  | .expression _ _ _ v, e, h => by
    rw [leaves] at h
    split at h
    · next hv =>
      cases List.mem_singleton.mp h
      exact ⟨.value v, Argument.normal_value_eq_error_iff.mpr hv⟩
    · cases List.mem_singleton.mp h
  | .condition _ records, e, h => normal_of_mem_leavesAll records e h

theorem normal_of_mem_leavesAll : ∀ (records : List Record) (e : Fault),
    .error e ∈ leavesAll records → ∃ a : Argument, a.normal = .error e
  | [], _, h => by cases h
  | r :: rest, e, h => (List.mem_append.mp h).elim (normal_of_mem_leaves r e)
      (normal_of_mem_leavesAll rest e)

end

mutual

theorem failed_addRecord : ∀ (r : Record) (owner : NodeId) (previous : Join) (s : Store),
    s.isBranch owner = true → s.hooks owner = .set k own → fault? own r.leaves = some f →
      (addRecord owner (.set k own) previous r s).result = .error f
  | .expression _ key operator v, owner, previous, s, _, hh, hf => by
    rw [leaves] at hf
    rw [addRecord, appendExpression, hh]
    split at hf
    · next e hv =>
      cases hf
      rw [newExpression_of_error (Argument.normal_value_eq_error_iff.mpr hv)]
      rfl
    · next hv =>
      obtain ⟨hends, hsortable⟩ := v.obstacle?_eq_none_iff.mp hv
      have hnormal := Argument.normal_eq_ok_iff.mpr ⟨hends, hsortable, rfl⟩
      have hvalidate : (validate own (context key operator v)).result = .error f := by
        rw [fault?] at hf
        split at hf
        · next e he => rw [he, Option.some.inj hf]
        · cases hf
      rw [newExpression_set (takeHooks_set s k own) _ _ hnormal]
      exact Outcome.result_bind_of_error _ (Outcome.result_bind_of_error _ hvalidate)
  | .condition _ records, owner, previous, s, _, _, hf => by
    obtain ⟨u, hu, hbranch, hhooks, -⟩ := newCondition_noted_set s k own
    rw [addRecord, hu, Outcome.ofExcept_ok, pure_bind]
    exact Outcome.result_bind_of_error _
      (failed_addRecords records s.nodes.size .and u hbranch hhooks hf)

theorem failed_addRecords : ∀ (records : List Record) (owner : NodeId) (previous : Join)
    (s : Store), s.isBranch owner = true → s.hooks owner = .set k own →
      fault? own (leavesAll records) = some f →
        (addRecords owner (.set k own) previous records s).result = .error f
  | [], _, _, _, _, _, hf => by cases hf
  | r :: rest, owner, previous, s, ho, hh, hf => by
    rw [leavesAll, fault?_append, Option.or_eq_some_iff] at hf
    rcases hf with hf | ⟨hnone, hf⟩
    · exact Outcome.result_bind_of_error _ (failed_addRecord r owner previous s ho hh hf)
    · obtain ⟨hs, ha⟩ := (makes_leaves_iff r).mp (fault?_eq_none_iff.mp hnone)
      obtain ⟨u, hu, hone⟩ := grownOne_addRecord r owner previous s ho hh hs ha
      rw [addRecords, Outcome.result_bind_of_ok _ hu]
      exact failed_addRecords rest owner r.join u hone.isBranch hone.hooks_eq hf

end

end

theorem perform_restore {u : Store} {encoded format : Value} {given : Hooks} {k : Nat}
    {records : List Record} (hdec : (decode encoded format).result = .ok records)
    (hu : s.takeHooks given = .ok (u, .set k own)) :
    ∃ w, w.isBranch u.nodes.size = true ∧ w.hooks u.nodes.size = .set k own ∧
      (s.perform (.restore encoded given format)).result =
        (addRecords u.nodes.size (.set k own) .and records w).result.map
          (·.keepLastJoin u.nodes.size records) := by
  obtain ⟨w, hw, hbranch, hhooks, -⟩ := newCondition_noted_set u k own
  refine ⟨w, hbranch, hhooks, ?_⟩
  simp only [perform, restore, replay, Outcome.result_bind, Outcome.result_ofExcept, hdec, hu]
  change (u.newCondition _ >>= _ >>= _ >>= _) = _
  rw [hw]
  change ((addRecords u.nodes.size (.set k own) .and records w).result >>= _ >>= _ >>= _) = _
  cases (addRecords u.nodes.size (.set k own) .and records w).result <;> rfl

/-! ### Expressions that are there -/

inductive Enters (s : Store) : Action → NodeId → Body → Prop where
  | add {owner : NodeId} {j : Join} {positional : List Argument} {named : List (String × Argument)}
      {own : HookSet} {key operator value : Argument} :
      Passes s owner positional named own key operator value →
      own.Admits (s.contextOf key operator value) →
      Enters s (.add owner j positional named) s.nodes.size (.leaf key operator.coerced value)

theorem body_leaf_of_after {a : Action} (ha : a.isRestore = false) {i : NodeId}
    {key operator value : Argument} (h : (s.after a).body i = some (.leaf key operator value)) :
    s.body i = some (.leaf key operator value) ∨ Enters s a i (.leaf key operator value) := by
  by_cases hadd : ∀ owner j positional named, a ≠ .add owner j positional named
  · exact .inl ((does_of_perform ha).body_leaf hadd h)
  · push Not at hadd
    obtain ⟨owner, j, positional, named, rfl⟩ := hadd
    cases hr : (s.perform (.add owner j positional named)).result with
    | error e =>
      rw [after_eq_of_error hr] at h
      exact .inl h
    | ok t =>
      rw [after_eq_of_ok hr] at h
      obtain ⟨ho, a, ha, hr⟩ := perform_add_eq_ok hr
      rcases add_eq_ok_of_texts hr with ⟨child, -, -, hr⟩ | ⟨k, o, given, rfl, hk, hop, hr⟩
      · obtain ⟨-, rfl⟩ := attach_eq_ok hr
        have hi := body_leaf_of_setSlots h
        rw [body_rebind] at hi
        exact .inl hi
      · obtain ⟨u, g, own, v, hu, hv, hpassed, rfl⟩ := appendExpression_passed hr
        rcases body_push (body_leaf_of_setSlots h) with hi | ⟨hi, hb⟩
        · exact .inl (by simpa only [body, takeHooks_eq_ok hu] using hi)
        · cases hb
          rw [hi, congrArg Array.size (takeHooks_eq_ok hu)]
          exact .inr (.add ⟨ho, hk, hop, ⟨given, ha, hv⟩, u, g, hu⟩
            ((HookSet.admits_iff _ _).mpr hpassed))

theorem exists_enters {calls : List Action} (hcalls : ∀ a ∈ calls, a.isRestore = false) (s : Store)
    {i : NodeId} {key operator value : Argument}
    (h : (calls.foldl after s).body i = some (.leaf key operator value)) :
    s.body i = some (.leaf key operator value) ∨
      ∃ before a later, calls = before ++ a :: later ∧
        Enters (before.foldl after s) a i (.leaf key operator value) := by
  induction calls generalizing s with
  | nil => exact .inl h
  | cons a rest ih =>
    have hrest : ∀ b ∈ rest, b.isRestore = false := fun b hb => hcalls b (List.mem_cons_of_mem _ hb)
    rcases ih hrest (s.after a) h with hi | ⟨before, b, later, rfl, henters⟩
    · refine (body_leaf_of_after (hcalls a List.mem_cons_self) hi).imp_right fun henters => ?_
      exact ⟨[], a, rest, rfl, henters⟩
    · exact .inr ⟨a :: before, b, later, rfl, henters⟩

/-! ### The gate -/

/-- What validation does for a store. -/
structure Gated (s : Store) : Prop where
  attempted : ∀ {owner positional named own key operator value},
    Passes s owner positional named own key operator value → ∀ j,
      s.attempts (.add owner j positional named) = [(own, s.contextOf key operator value)]
  unattempted : ∀ {owner positional named},
    (∀ own key operator value, ¬Passes s owner positional named own key operator value) → ∀ j,
      s.attempts (.add owner j positional named) = []
  added : ∀ {owner positional named own key operator value},
    Passes s owner positional named own key operator value →
    own.Admits (s.contextOf key operator value) → ∀ j,
      ∃ t, (s.perform (.add owner j positional named)).result = .ok t ∧
        t.slots owner = joinLast j (s.slots owner) ++ [⟨j, s.nodes.size⟩] ∧
        t.body s.nodes.size = some (.leaf key operator.coerced value)
  refused : ∀ {owner positional named own key operator value f},
    Passes s owner positional named own key operator value →
    own.Refuses (s.contextOf key operator value) f → ∀ j,
      (s.perform (.add owner j positional named)).result =
        .error ((s.contextOf key operator value).rejecting f)
  replayed : ∀ {encoded format given records u k own},
    (decode encoded format).result = .ok records → s.takeHooks given = .ok (u, .set k own) →
      s.attempts (.restore encoded given format) = Record.attempted own (leavesAll records)
  restored : ∀ {encoded format given records u k own},
    (decode encoded format).result = .ok records → s.takeHooks given = .ok (u, .set k own) →
      ((∃ t, (s.perform (.restore encoded given format)).result = .ok t) ↔
        Makes own (leavesAll records))
  unrestored : ∀ {encoded format given records u k own c f},
    (decode encoded format).result = .ok records → s.takeHooks given = .ok (u, .set k own) →
    (own, c) ∈ Record.attempted own (leavesAll records) → own.Refuses c f →
      (s.perform (.restore encoded given format)).result = .error (c.rejecting f)
  halted : ∀ {owner positional named e}, Halts s owner positional named e → ∀ j,
    s.attempts (.add owner j positional named) = [] ∧
      (s.perform (.add owner j positional named)).result = .error e ∧ e.kind ≠ .validation
  unkept : ∀ {encoded format given records u k own before e after},
    (decode encoded format).result = .ok records → s.takeHooks given = .ok (u, .set k own) →
    leavesAll records = before ++ .error e :: after → Makes own before →
      s.attempts (.restore encoded given format) = Record.attempted own before ∧
      (s.perform (.restore encoded given format)).result = .error e ∧ e.kind ≠ .validation

theorem gated (s : Store) : Gated s where
  attempted h j := h.attempts_eq j
  unattempted h j := List.eq_nil_iff_forall_not_mem.mpr fun p hp =>
    have ⟨own, key, operator, value, hpasses⟩ := exists_passes_of_mem hp
    h own key operator value hpasses
  added h hc j := h.added j hc
  refused h hf j := h.refused j hf
  replayed hdec hu := attempts_restore hdec hu
  restored hdec hu := by
    obtain ⟨w, hbranch, hhooks, hperform⟩ := perform_restore hdec hu
    rw [hperform, ← addRecords_isOk_iff .and hbranch hhooks]
    simp only [except_map_eq_ok_iff]
    exact ⟨fun ⟨_, x, hx, _⟩ => ⟨x, hx⟩, fun ⟨x, hx⟩ => ⟨_, x, hx, rfl⟩⟩
  unrestored hdec hu hc hf := by
    obtain ⟨w, hbranch, hhooks, hperform⟩ := perform_restore hdec hu
    rw [hperform, failed_addRecords _ _ _ w hbranch hhooks
      (fault?_of_refuses (key_of_mem_leavesAll _) hc hf)]
    rfl
  halted h j := h.failed j
  unkept {_ _ _ records _ _ own before e _} hdec hu hleaves hmakes := by
    obtain ⟨w, hbranch, hhooks, hperform⟩ := perform_restore hdec hu
    have hfault : fault? own (leavesAll records) = some e := by
      rw [hleaves, fault?_append, fault?_eq_none_iff.mpr hmakes]
      rfl
    obtain ⟨a, ha⟩ := normal_of_mem_leavesAll records e (by simp [hleaves])
    refine ⟨?_, ?_, kind_ne_validation_of_normal ha⟩
    · rw [attempts_restore hdec hu, hleaves, attempted_append_of_makes hmakes, attempted,
        List.append_nil]
    · rw [hperform, failed_addRecords _ _ _ w hbranch hhooks hfault]
      rfl

/-- In any history each attempt at an expression is validated once, when it is made, and nothing else
is. What passes comes in and what is turned down does not, so that all that is there has passed. -/
theorem run_gated (steps : List Step) :
    Reports (empty.validations steps) (fun note => empty.follow (steps.map (·.noted note)))
      (fun note => .ok ((run (steps.filterMap Step.action?)).noted note)) ∧
    Gated (run (steps.filterMap Step.action?)) ∧
    ∀ i key operator value,
      (run (steps.filterMap Step.action?)).body i = some (.leaf key operator value) →
      ∃ before a later, empty.elementary (steps.filterMap Step.action?) = before ++ a :: later ∧
        Enters (run before) a i (.leaf key operator value) := by
  refine ⟨?_, gated _, fun i key operator value hi => ?_⟩
  · have hfollow := reports_follow empty steps
    simp only [noted_empty] at hfollow
    exact hfollow
  rw [← run_elementary] at hi
  rcases exists_enters (fun _ => isRestore_of_mem_elementary) empty hi with hi | henters
  · exact absurd (lt_size_of_body hi) (Nat.not_lt_zero _)
  · exact henters

def unkept : List Argument :=
  [.value (.text "k"), .value (.text "eq"), .value (.set [.int Value.tooLong])]

/-- No hook has a say, the arguments are of the right types, and yet nothing is added. -/
theorem perform_unkept :
    (run [.create .none]).hooks 0 = .set 0 .empty ∧ HookSet.empty.validate = none ∧
    (run [.create .none]).isBranch 0 = true ∧
    Arguments.ofCall unkept [] = .ok ⟨.value (.text "k"), some (.value (.text "eq")),
      some (.value (.set [.int Value.tooLong]))⟩ ∧
    ((run [.create .none]).perform (.add 0 .and unkept [])).result = .error .longInteger := by
  have hbranch : (run [.create .none]).isBranch 0 = true := rfl
  refine ⟨rfl, rfl, hbranch, rfl, ?_⟩
  rw [unkept, result_perform_expression hbranch, appendExpression,
    newExpression_of_error normal_set_tooLong]
  rfl

end Store

end FilterTree
