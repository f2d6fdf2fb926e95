import FilterTree.Proofs.Restore.Gate
import FilterTree.Proofs.Restore.Spelling

/-! The order in which a restoring validates. The expressions are validated as they stand in the
data, those of a nested condition in its place, down to the first that is turned down. Data that
spells no condition is found out before anything is validated. -/

namespace FilterTree

namespace Record

/-! ### Attempts at expressions that can be kept -/

variable {own : HookSet} {hook : Hook}

theorem makes_map_ok_iff {cs : List Context} :
    Makes own (cs.map .ok) ↔ ∀ c ∈ cs, own.Admits c := by
  simp [Makes]

theorem attempted_of_admits {cs : List Context} (h : ∀ c ∈ cs, own.Admits c) :
    attempted own (cs.map .ok) = cs.map (own, ·) := by
  induction cs with
  | nil => rfl
  | cons c cs ih =>
    rw [List.map_cons, attempted, if_pos (h c List.mem_cons_self),
      ih fun d hd => h d (List.mem_cons_of_mem _ hd), List.map_cons]

theorem attempted_of_not_admits {before : List Context} (h : ∀ b ∈ before, own.Admits b)
    {c : Context} (hc : ¬own.Admits c) (after : List (Except Fault Context)) :
    attempted own (before.map .ok ++ .ok c :: after) = (before ++ [c]).map (own, ·) := by
  rw [attempted_append_of_makes (makes_map_ok_iff.mpr h), attempted_of_admits h, attempted,
    if_neg hc, List.map_append]
  rfl

theorem filterMap_call? (hhook : own.validate = some hook) (cs : List Context) :
    (cs.map (own, ·)).filterMap Store.Attempt.call? = cs.map (hook, ·) := by
  rw [List.filterMap_map]
  have hcall : Store.Attempt.call? ∘ (own, ·) = some ∘ (hook, ·) := by
    funext c
    simp [Store.Attempt.call?, hhook]
  rw [hcall, List.filterMap_eq_map]

/-! ### Records without their hooks -/

mutual

theorem record_tree_congr (h l : Hooks) : ∀ r : Record, (r.tree h).record = (r.tree l).record
  | .expression _ _ _ _ => rfl
  | .condition _ records => by
    rw [tree, tree, Tree.record, Tree.record, recordOfSlots_trees_congr h l records]

theorem recordOfSlots_trees_congr (h l : Hooks) : ∀ records : List Record,
    Tree.recordOfSlots (trees h records) = Tree.recordOfSlots (trees l records)
  | [] => rfl
  | r :: rest => by
    have hname : (r.tree h).fieldName = (r.tree l).fieldName := by cases r <;> rfl
    rw [trees, trees, Tree.recordOfSlots, Tree.recordOfSlots, record_tree_congr h l r, hname,
      recordOfSlots_trees_congr h l rest]

end

end Record

namespace Store
open Record

variable {s u : Store} {encoded format : Value} {given : Hooks} {k : Nat} {own : HookSet}

/-- The calls of validation hooks that a restoring makes, in order. -/
def Validates (s : Store) (encoded : Value) (given : Hooks) (format : Value)
    (calls : List (Hook × Context)) : Prop :=
  Reports calls (fun note => (s.noted note).restore encoded (given.noted note) format) fun note =>
    (s.restore encoded given format).result.map fun p => (p.1.noted note, p.2)

theorem validates_of_decode {records : List Record}
    (hdec : (decode encoded format).result = .ok records)
    (hu : s.takeHooks given = .ok (u, .set k own)) {hook : Hook} (hhook : own.validate = some hook)
    {cs : List Context} (hcs : attempted own (leavesAll records) = cs.map (own, ·)) :
    s.Validates encoded given format (cs.map (hook, ·)) := by
  have hreports := reports_restore s encoded given format
  rw [attempts_restore hdec hu, hcs, filterMap_call? hhook] at hreports
  exact hreports

theorem validates_nil {e : Fault} (hdec : (decode encoded format).result = .error e) :
    s.Validates encoded given format [] := by
  have hreports := reports_restore s encoded given format
  have hnone : s.attempts (.restore encoded given format) = [] := by simp only [attempts, hdec]
  rw [hnone] at hreports
  exact hreports

theorem restore_eq_error_of_perform {e : Fault}
    (h : (s.perform (.restore encoded given format)).result = .error e) :
    (s.restore encoded given format).result = .error e := by
  rw [perform] at h
  cases hr : (s.restore encoded given format).result with
  | ok p =>
    rw [Outcome.result_bind_of_ok _ hr] at h
    cases h
  | error e =>
    rw [Outcome.result_bind_of_error _ hr] at h
    exact congrArg Except.error (Except.error.inj h)

theorem restore_refused {records : List Record}
    (hdec : (decode encoded format).result = .ok records)
    (hu : s.takeHooks given = .ok (u, .set k own)) {c : Context} {f : Fault}
    (hc : (own, c) ∈ attempted own (leavesAll records)) (hf : own.Refuses c f) :
    (s.restore encoded given format).result = .error (c.rejecting f) :=
  restore_eq_error_of_perform ((gated s).unrestored hdec hu hc hf)

theorem resolve_of_takeHooks (hu : s.takeHooks given = .ok (u, .set k own)) :
    given.resolve s.nextIdentity = .ok (k, own) := by
  unfold takeHooks at hu
  cases hr : given.resolve s.nextIdentity with
  | error e =>
    rw [hr] at hu
    cases hu
  | ok p =>
    rw [hr] at hu
    cases hu
    rfl

theorem restore_admitted {records : List Record}
    (hdec : (decode encoded format).result = .ok records)
    (hu : s.takeHooks given = .ok (u, .set k own)) (hmakes : Makes own (leavesAll records)) :
    ∃ t t' id, (s.restore encoded given format).result = .ok (t, id) ∧
      (s.restore encoded .none format).result = .ok (t', id) ∧
      (t.view id).record = (t'.view id).record := by
  obtain ⟨hs, ha⟩ := (makes_leavesAll_iff records).mp hmakes
  obtain ⟨t, ht, -, hview⟩ :=
    restore_eq_ok_of_admitted (resolve_of_takeHooks hu) ha hdec hs
  have hnone : Hooks.resolve s.nextIdentity .none = .ok (Hooks.emptyIdentity, .empty) := rfl
  obtain ⟨t', ht', -, hview'⟩ := restore_eq_ok hnone rfl hdec hs
  refine ⟨t, t', s.nodes.size, ht, ht', ?_⟩
  rw [← Tree.record_unnumbered, ← Tree.record_unnumbered (t'.view _), hview, hview', Tree.record,
    Tree.record, recordOfSlots_trees_congr _ (.set Hooks.emptyIdentity .empty) records]

/-- With a validating hook, what spells a condition is validated from left to right, each expression
once. Where all are accepted, hooks make no difference to the record; else the rejection of the first
one turned down ends the restoring, and is what the caller gets. A value that has no normal form ends
it too, with what is wrong with it, and is not validated. What spells no condition is malformed, and
nothing of it is validated. -/
theorem restore_validates_in_order {data : Value} {xs : List Value} {hook : Hook}
    (hdata : (loadEncoded encoded format).result = .ok data) (hxs : data.sequence? = some xs)
    (hu : s.takeHooks given = .ok (u, .set k own)) (hhook : own.validate = some hook) :
    (∀ records, Wire.SpellsAll xs records →
      (∀ cs : List Context, leavesAll records = cs.map .ok →
        (∀ c ∈ cs, ∃ v, (hook.run c).result = .ok v) →
        s.Validates encoded given format (cs.map (hook, ·)) ∧
        ∃ t t' id, (s.restore encoded given format).result = .ok (t, id) ∧
          (s.restore encoded .none format).result = .ok (t', id) ∧
          (t.view id).record = (t'.view id).record) ∧
      (∀ (before : List Context) c f after, leavesAll records = before.map .ok ++ .ok c :: after →
        (∀ b ∈ before, ∃ v, (hook.run b).result = .ok v) → (hook.run c).result = .error f →
        s.Validates encoded given format ((before ++ [c]).map (hook, ·)) ∧
        (s.restore encoded given format).result = .error (c.rejecting f) ∧
        (c.rejecting f).kind = .validation) ∧
      ∀ (before : List Context) e after, leavesAll records = before.map .ok ++ .error e :: after →
        (∀ b ∈ before, ∃ v, (hook.run b).result = .ok v) →
        s.Validates encoded given format (before.map (hook, ·)) ∧
        (s.restore encoded given format).result = .error e ∧ e.kind ≠ .validation) ∧
    ((¬∃ records, Wire.SpellsAll xs records) →
      s.Validates encoded given format [] ∧
      ∃ e, (s.restore encoded given format).result = .error e ∧ e.kind = .malformed) := by
  have hadmits (c : Context) : own.Admits c ↔ ∃ v, (hook.run c).result = .ok v := by
    simp [HookSet.Admits, hhook]
  simp only [← hadmits]
  refine ⟨fun records hspells => ?_, fun hspells => ?_⟩
  · have hdec := decode_of_spellsAll hdata hxs hspells
    refine ⟨fun cs hleaves hall => ?_, fun before c f after hleaves hbefore hf => ?_,
      fun before e after hleaves hbefore => ?_⟩
    · refine ⟨validates_of_decode hdec hu hhook (by rw [hleaves, attempted_of_admits hall]),
        restore_admitted hdec hu ?_⟩
      rw [hleaves]
      exact makes_map_ok_iff.mpr hall
    · have hrefuses : own.Refuses c f := ⟨hook, hhook, hf⟩
      have hattempted : attempted own (leavesAll records) = (before ++ [c]).map (own, ·) := by
        rw [hleaves, attempted_of_not_admits hbefore (Refuses.not_admits hrefuses)]
      refine ⟨validates_of_decode hdec hu hhook hattempted,
        restore_refused hdec hu (by simp [hattempted]) hrefuses, ?_⟩
      cases f <;> rfl
    · obtain ⟨hattempts, hresult, hkind⟩ :=
        (gated s).unkept hdec hu hleaves (makes_map_ok_iff.mpr hbefore)
      rw [attempts_restore hdec hu, attempted_of_admits hbefore] at hattempts
      exact ⟨validates_of_decode hdec hu hhook hattempts, restore_eq_error_of_perform hresult,
        hkind⟩
  · obtain ⟨e, hdec, hkind⟩ := decode_of_not_spellsAll hdata hxs hspells
    exact ⟨validates_nil hdec, e, restore_eq_error hdec, hkind⟩

/-- The second of three expressions, in a nested condition, is turned down. -/
theorem restore_validates_in_order_nested :
    let xs : List Value := [Wire.slot .or "expression" (Wire.leaf "a" "eq" (.tuple [])),
      Wire.slot .and "condition" (.list [Wire.slot .and "expression" (Wire.leaf "b" "eq" .null)]),
      Wire.slot .and "expression" (Wire.leaf "c" "eq" .null)]
    let hook : Hook := ⟨"only_a", fun c =>
      if c.key.plain = "a" then pure .null else .fail (.rejected "no" none)⟩
    let own : HookSet := HookSet.empty.put .validate (some hook)
    empty.Validates (.list xs) (.set 1 own) .null
        [(hook, context "a" "eq" (.list [])), (hook, context "b" "eq" .null)] ∧
      (empty.restore (.list xs) (.set 1 own) .null).result = .error (.rejected "no" none) := by
  intro xs hook own
  let records : List Record := [.expression .or "a" "eq" (.tuple []),
    .condition .and [.expression .and "b" "eq" .null], .expression .and "c" "eq" .null]
  have hspells : Wire.SpellsAll xs records := spellsAll_of_ofItems (ofItems_wireAll records 0)
  have hdata : (loadEncoded (.list xs) .null).result = .ok (.list xs) := rfl
  have hhook : own.validate = some hook := rfl
  obtain ⟨horder, -⟩ :=
    restore_validates_in_order hdata rfl (takeHooks_set empty 1 own) hhook
  obtain ⟨-, hrefused, -⟩ := horder _ hspells
  obtain ⟨hcalls, hresult, -⟩ := hrefused [context "a" "eq" (.tuple [])]
    (context "b" "eq" .null) (.rejected "no" none) [.ok (context "c" "eq" .null)] (by rfl)
    (by simpa using ⟨_, rfl⟩) (by rfl)
  exact ⟨hcalls, hresult⟩

/-- What can not be put in order is not validated, although it stands in a well-formed record. -/
theorem restore_unkept :
    let v : Value := .set [.int Value.tooLong]
    let data : Value := .list [Wire.slot .and "expression" (Wire.leaf "k" "eq" v)]
    let hook : Hook := ⟨"none", fun _ => .fail (.rejected "no" none)⟩
    let own : HookSet := HookSet.empty.put .validate (some hook)
    data.sequence? = some [Wire.slot .and "expression" (Wire.leaf "k" "eq" v)] ∧
      Wire.SpellsAll [Wire.slot .and "expression" (Wire.leaf "k" "eq" v)]
        [.expression .and "k" "eq" v] ∧
      empty.Validates data (.set 1 own) .null [] ∧
      (empty.restore data (.set 1 own) .null).result = .error .longInteger ∧
      Fault.longInteger.kind ≠ .validation := by
  intro v data hook own
  have hspells : Wire.SpellsAll [Wire.slot .and "expression" (Wire.leaf "k" "eq" v)]
      [.expression .and "k" "eq" v] :=
    .cons (spells_of_ofValue (ofValue_wire (.expression .and "k" "eq" v))) .nil
  have hdec : (decode data .null).result = .ok [.expression .and "k" "eq" v] :=
    decode_of_spellsAll rfl rfl hspells
  have hu := takeHooks_set empty 1 own
  have hleaves : leavesAll [.expression .and "k" "eq" v] = [.error .longInteger] := by
    rw [leavesAll, leaves, Argument.normal_value_eq_error_iff.mp normal_set_tooLong]
    rfl
  have hmakes : Makes own [] := nofun
  obtain ⟨hattempts, hresult, hkind⟩ := (gated empty).unkept hdec hu hleaves hmakes
  rw [attempts_restore hdec hu] at hattempts
  have hnone : attempted own [] = [].map (own, ·) := rfl
  exact ⟨rfl, hspells, validates_of_decode hdec hu rfl (hattempts.trans hnone),
    restore_eq_error_of_perform hresult, hkind⟩

end Store

end FilterTree
