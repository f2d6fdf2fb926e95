import Mathlib.Logic.Relation
import FilterTree.Proofs.Store.Fields

/-! What a successful operation can do to the store. Each of them is a run of edits, so that an
invariant of the store has to be checked once for each kind of edit. -/

namespace FilterTree.Store
open Relation

/-- One change of the store, told in full. -/
inductive Edit (s : Store) : Store → Prop where
  | takeHooks {t : Store} {given h : Hooks} : s.takeHooks given = .ok (t, h) → Edit s t
  | condition (h : Hooks) : Edit s (s.push ⟨h, .branch []⟩).1
  | leaf {t : Store} {owner : NodeId} {h : Hooks} (j : Join) (key operator value : Argument) :
      s.isBranch owner = true → s.takeHooks (s.hooks owner) = .ok (t, h) →
      Edit s ((t.push ⟨h, .leaf key operator value⟩).1.setSlots owner
        (joinLast j (s.slots owner) ++ [⟨j, s.nodes.size⟩]))
  | attach {owner child : NodeId} (j : Join) :
      s.isBranch owner = true → s.isBranch child = true → s.reaches child owner = false →
      Edit s ((s.rebind child (s.hooks owner)).setSlots owner
        (joinLast j (s.slots owner) ++ [⟨j, child⟩]))
  | join {id : NodeId} (i : Nat) (j : Join) : s.isBranch id = true →
      Edit s (s.setSlots id ((s.slots id).modify i fun slot => { slot with join := j }))
  | hooks (id : NodeId) (h : Hooks) : Edit s (s.setHooks id h)

abbrev Edits : Store → Store → Prop := ReflTransGen Edit

theorem Edit.isBranch {s t : Store} (he : Edit s t) {id : NodeId} (h : s.isBranch id = true) :
    t.isBranch id = true := by
  cases he with
  | takeHooks ht => exact (isBranch_of_takeHooks ht id).trans h
  | condition k => exact isBranch_push _ h
  | leaf j key operator value _ ht =>
    exact isBranch_setSlots _ _ (isBranch_push_of_takeHooks ht _ h)
  | attach j _ _ _ => exact isBranch_setSlots _ _ ((isBranch_rebind s _ _ _).trans h)
  | join i j _ => exact isBranch_setSlots _ _ h
  | hooks i k => exact (isBranch_setHooks s i id k).trans h

theorem Edits.isBranch {s t : Store} (he : Edits s t) {id : NodeId} (h : s.isBranch id = true) :
    t.isBranch id = true := by
  induction he with
  | refl => exact h
  | tail _ he ih => exact he.isBranch ih

/-! ### Appends -/

theorem result_append (s : Store) (owner : NodeId) (j : Join) (payload : NodeId) :
    (s.append owner j payload).result =
      .ok (s.setSlots owner (joinLast j (s.slots owner) ++ [⟨j, payload⟩])) := rfl

theorem result_attach_of_reaches {s : Store} {owner child : NodeId} (j : Join)
    (h : s.reaches child owner = true) :
    (s.attach owner j child).result = .error (.misuse .cycle) := by
  rw [attach, if_pos h, Outcome.result_fail]

theorem result_attach_of_not_reaches {s : Store} {owner child : NodeId} (j : Join)
    (h : s.reaches child owner = false) :
    (s.attach owner j child).result = .ok ((s.rebind child (s.hooks owner)).setSlots owner
      (joinLast j (s.slots owner) ++ [⟨j, child⟩])) := by
  have hn : ¬ s.reaches child owner = true := by simp [h]
  rw [attach, if_neg hn, result_append, slots_rebind]

theorem attach_eq_ok {s t : Store} {owner child : NodeId} {j : Join}
    (h : (s.attach owner j child).result = .ok t) : s.reaches child owner = false ∧
      t = (s.rebind child (s.hooks owner)).setSlots owner
        (joinLast j (s.slots owner) ++ [⟨j, child⟩]) := by
  cases hr : s.reaches child owner with
  | true => simp [result_attach_of_reaches j hr] at h
  | false =>
    rw [result_attach_of_not_reaches j hr] at h
    exact ⟨rfl, (Except.ok.inj h).symm⟩

theorem Edit.of_attach {s t : Store} {owner child : NodeId} {j : Join}
    (ho : s.isBranch owner = true) (hc : s.isBranch child = true)
    (h : (s.attach owner j child).result = .ok t) : Edit s t := by
  obtain ⟨hr, rfl⟩ := attach_eq_ok h
  exact .attach j ho hc hr

theorem newExpression_eq_ok {s t : Store} {id : NodeId} {key operator value : Argument}
    {given : Hooks} (h : (s.newExpression key operator value given).result = .ok (t, id)) :
    ∃ u k v, s.takeHooks given = .ok (u, k) ∧ value.normal = .ok v ∧
      t = (u.push ⟨k, .leaf key operator.coerced v⟩).1 ∧ id = s.nodes.size := by
  obtain ⟨v, hv, h⟩ := Outcome.bind_eq_ok_iff.mp h
  obtain ⟨⟨u, k⟩, hu, h⟩ := Outcome.bind_eq_ok_iff.mp h
  rw [Outcome.result_ofExcept] at hv hu
  have hp : (u.push ⟨k, .leaf key operator.coerced v⟩) = (t, id) := by
    cases k with
    | set identity hooks =>
      obtain ⟨_, _, h⟩ := Outcome.bind_eq_ok_iff.mp h
      exact Except.ok.inj h
    | none => exact Except.ok.inj h
    | mapping entries => exact Except.ok.inj h
    | other v => exact Except.ok.inj h
  cases hp
  exact ⟨u, k, v, hu, hv, rfl, congrArg Array.size (takeHooks_eq_ok hu)⟩

theorem appendExpression_eq_ok {s t : Store} {owner : NodeId} {j : Join}
    {key operator value : Argument}
    (h : (s.appendExpression owner j key operator value).result = .ok t) :
    ∃ u k v, s.takeHooks (s.hooks owner) = .ok (u, k) ∧ value.normal = .ok v ∧
      t = (u.push ⟨k, .leaf key operator.coerced v⟩).1.setSlots owner
        (joinLast j (s.slots owner) ++ [⟨j, s.nodes.size⟩]) := by
  obtain ⟨⟨w, id⟩, hw, h⟩ := Outcome.bind_eq_ok_iff.mp h
  obtain ⟨u, k, v, hu, hv, rfl, rfl⟩ := newExpression_eq_ok hw
  rw [result_append, slots_push_leaf_of_takeHooks hu] at h
  exact ⟨u, k, v, hu, hv, (Except.ok.inj h).symm⟩

theorem Edit.of_appendExpression {s t : Store} {owner : NodeId} {j : Join}
    {key operator value : Argument} (ho : s.isBranch owner = true)
    (h : (s.appendExpression owner j key operator value).result = .ok t) : Edit s t := by
  obtain ⟨u, k, v, hu, -, rfl⟩ := appendExpression_eq_ok h
  exact .leaf j key operator.coerced v ho hu

theorem add_nested {s : Store} {child : NodeId} (h : s.isBranch child = true) (owner : NodeId)
    (j : Join) (operator value : Option Argument) :
    s.add owner j ⟨.node child, operator, value⟩ =
      if operator.isSome || value.isSome then .fail (.misuse .extraArguments)
      else s.attach owner j child := by
  simp [add, h]

theorem add_keyed {s : Store} {first : Argument}
    (h : ∀ id, first = .node id → s.isBranch id = false) (owner : NodeId) (j : Join)
    (operator value : Option Argument) :
    s.add owner j ⟨first, operator, value⟩ =
      match argumentText? first with
      | none => .fail (.misuse (.keyExpected (s.argumentType first)))
      | some key =>
        match operator, value with
        | some operator, some value =>
          if (argumentText? operator).isSome then s.appendExpression owner j first operator value
          else .fail (.misuse (.operatorExpected (s.argumentType operator)))
        | _, _ => .fail (.misuse (.incomplete key)) := by
  unfold add
  cases first with
  | value v => cases argumentText? (.value v) <;> rfl
  | hooks | list | tuple | map => rfl
  | node id => simp [h id rfl, argumentText?]

theorem add_eq_ok {s t : Store} {owner : NodeId} {j : Join} {a : Arguments}
    (h : (s.add owner j a).result = .ok t) :
    (∃ child, a = ⟨.node child, none, none⟩ ∧ s.isBranch child = true ∧
      (s.attach owner j child).result = .ok t) ∨
    ∃ key operator value, a = ⟨key, some operator, some value⟩ ∧
      (s.appendExpression owner j key operator value).result = .ok t := by
  obtain ⟨first, operator, value⟩ := a
  by_cases hf : ∃ child, first = .node child ∧ s.isBranch child = true
  · obtain ⟨child, rfl, hc⟩ := hf
    rw [add_nested hc] at h
    cases operator <;> cases value <;> simp at h
    exact .inl ⟨child, rfl, hc, h⟩
  · rw [add_keyed (by simpa using hf)] at h
    split at h
    · simp at h
    · split at h
      · next operator value =>
        split at h
        · exact .inr ⟨first, operator, value, rfl, h⟩
        · simp at h
      · simp at h

theorem Edit.of_add {s t : Store} {owner : NodeId} {j : Join} {a : Arguments}
    (ho : s.isBranch owner = true) (h : (s.add owner j a).result = .ok t) : Edit s t := by
  rcases add_eq_ok h with ⟨child, -, hc, ht⟩ | ⟨key, operator, value, -, ht⟩
  · exact .of_attach ho hc ht
  · exact .of_appendExpression ho ht

/-! ### Joins and new conditions -/

theorem Edit.of_setJoin {s t : Store} {id : NodeId} {index join : Value}
    (hid : s.isBranch id = true) (h : s.setJoin id index join = .ok t) : Edit s t := by
  obtain ⟨j, -, h⟩ := except_bind_eq_ok_iff.mp h
  obtain ⟨i, -, h⟩ := except_bind_eq_ok_iff.mp h
  cases h
  exact .join i j hid

theorem Edits.keepLastJoin {s : Store} {id : NodeId} (hid : s.isBranch id = true)
    (records : List Record) : Edits s (s.keepLastJoin id records) := by
  unfold Store.keepLastJoin
  cases records.getLast? with
  | none => exact .refl
  | some last =>
    dsimp only
    rw [joinLast_eq_modify]
    exact .single (.join _ _ hid)

theorem newCondition_eq_ok {s t : Store} {id : NodeId} {given : Hooks}
    (h : s.newCondition given = .ok (t, id)) :
    ∃ u k, s.takeHooks given = .ok (u, k) ∧ t = (u.push ⟨k, .branch []⟩).1 ∧
      id = s.nodes.size := by
  obtain ⟨⟨u, k⟩, hu, hp⟩ := except_bind_eq_ok_iff.mp h
  cases hp
  exact ⟨u, k, hu, rfl, congrArg Array.size (takeHooks_eq_ok hu)⟩

theorem newCondition_of_takeHooks {s u : Store} {given hooks : Hooks}
    (h : s.takeHooks given = .ok (u, hooks)) : s.newCondition hooks = u.newCondition hooks := by
  obtain ⟨⟨identity, own⟩, -, hp⟩ := except_bind_eq_ok_iff.mp h
  cases hp
  simp only [newCondition, takeHooks_set, Nat.max_self, Nat.max_assoc]

theorem Edits.of_newCondition {s t : Store} {id : NodeId} {given : Hooks}
    (h : s.newCondition given = .ok (t, id)) : Edits s t ∧ t.isBranch id = true := by
  obtain ⟨u, k, hu, rfl, rfl⟩ := newCondition_eq_ok h
  refine ⟨(ReflTransGen.single (.takeHooks hu)).tail (.condition k), ?_⟩
  rw [← congrArg Array.size (takeHooks_eq_ok hu)]
  exact isBranch_push_self u k []

/-! ### Restoring -/

mutual

theorem Edits.of_addRecords {owner : NodeId} {hooks : Hooks} {previous : Join} {s t : Store} :
    ∀ records, s.isBranch owner = true →
      (addRecords owner hooks previous records s).result = .ok t → Edits s t
  | [], _, h => by
    cases h
    exact .refl
  | r :: rest, ho, h => by
    obtain ⟨u, hu, h⟩ := Outcome.bind_eq_ok_iff.mp h
    have hs := Edits.of_addRecord r ho hu
    exact hs.trans (Edits.of_addRecords rest (hs.isBranch ho) h)

theorem Edits.of_addRecord {owner : NodeId} {hooks : Hooks} {previous : Join} {s t : Store} :
    ∀ record, s.isBranch owner = true →
      (addRecord owner hooks previous record s).result = .ok t → Edits s t
  | .expression _ _ _ _, ho, h => .single (.of_appendExpression ho h)
  | .condition _ records, ho, h => by
    obtain ⟨⟨u, child⟩, hu, h⟩ := Outcome.bind_eq_ok_iff.mp h
    rw [Outcome.result_ofExcept] at hu
    obtain ⟨w, hw, h⟩ := Outcome.bind_eq_ok_iff.mp h
    obtain ⟨hnew, hchild⟩ := Edits.of_newCondition hu
    -- the steps of a nested condition: made, filled, its last join kept, and attached
    have hfill := Edits.of_addRecords records hchild hw
    have hkeep := Edits.keepLastJoin (hfill.isBranch hchild) records
    have hall : Edits s _ := (hnew.trans hfill).trans hkeep
    have hc := hkeep.isBranch (hfill.isBranch hchild)
    exact hall.tail (.of_attach (hall.isBranch ho) hc h)

end

theorem Edits.of_filled {s t u : Store} {id : NodeId} {given hooks : Hooks} {previous : Join}
    {records : List Record} (hnew : s.newCondition given = .ok (t, id))
    (hadd : (addRecords id hooks previous records t).result = .ok u) :
    Edits s (u.keepLastJoin id records) ∧ u.isBranch id = true ∧
      (u.keepLastJoin id records).isBranch id = true := by
  obtain ⟨hst, ht⟩ := Edits.of_newCondition hnew
  have htu := Edits.of_addRecords records ht hadd
  have hu := htu.isBranch ht
  have hkeep := Edits.keepLastJoin hu records
  exact ⟨(hst.trans htu).trans hkeep, hu, hkeep.isBranch hu⟩

theorem exists_filled_of_replay {s t : Store} {id : NodeId} {hooks : Hooks} {records : List Record}
    (h : (s.replay hooks records).result = .ok (t, id)) :
    ∃ u v, s.newCondition hooks = .ok (u, id) ∧
      (addRecords id hooks .and records u).result = .ok v ∧ t = v.keepLastJoin id records := by
  obtain ⟨⟨u, top⟩, hnew, h⟩ := Outcome.bind_eq_ok_iff.mp h
  rw [Outcome.result_ofExcept] at hnew
  obtain ⟨v, hadd, h⟩ := Outcome.bind_eq_ok_iff.mp h
  cases h
  exact ⟨u, v, hnew, hadd, rfl⟩

theorem exists_filled_of_restore {s t : Store} {id : NodeId} {encoded format : Value}
    {given : Hooks} (h : (s.restore encoded given format).result = .ok (t, id)) :
    ∃ records hooks u v, (decode encoded format).result = .ok records ∧
      s.newCondition hooks = .ok (u, id) ∧
      (addRecords id hooks .and records u).result = .ok v ∧ t = v.keepLastJoin id records := by
  obtain ⟨records, hdecode, h⟩ := Outcome.bind_eq_ok_iff.mp h
  obtain ⟨⟨w, hooks⟩, hw, h⟩ := Outcome.bind_eq_ok_iff.mp h
  rw [Outcome.result_ofExcept] at hw
  obtain ⟨⟨x, root⟩, hx, h⟩ := Outcome.bind_eq_ok_iff.mp h
  cases h
  obtain ⟨u, v, hnew, hadd, rfl⟩ := exists_filled_of_replay hx
  rw [← newCondition_of_takeHooks hw] at hnew
  exact ⟨records, hooks, u, v, hdecode, hnew, hadd, rfl⟩

theorem Edits.of_restore {s t : Store} {id : NodeId} {encoded format : Value} {given : Hooks}
    (h : (s.restore encoded given format).result = .ok (t, id)) : Edits s t := by
  obtain ⟨records, hooks, u, v, -, hnew, hadd, rfl⟩ := exists_filled_of_restore h
  exact (Edits.of_filled hnew hadd).1

end FilterTree.Store
