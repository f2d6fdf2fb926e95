import FilterTree.Tree.Procedure
import FilterTree.Proofs.Store.Calls

/-! Calls that are carried out in place do what the operations on the store say, with the same
events. -/

namespace FilterTree

namespace Procedure
variable {α β : Type}

/-! ### Outcomes -/

theorem outcome_bind (p : Procedure α) (f : α → Procedure β) (s : Store) :
    (p >>= f).outcome s = p.outcome s >>= fun r => (f r.2).outcome r.1 := by
  change (Procedure.bind p f).outcome s = _
  unfold Procedure.outcome Procedure.bind
  rcases p s with ⟨t, events, _ | a⟩ <;> rfl

@[simp] theorem outcome_pure (a : α) (s : Store) :
    (Pure.pure a : Procedure α).outcome s = Pure.pure (s, a) := rfl

@[simp] theorem outcome_look (f : Store → α) (s : Store) :
    (look f).outcome s = Pure.pure (s, f s) := rfl

@[simp] theorem outcome_write (f : Store → Store) (s : Store) :
    (write f).outcome s = Pure.pure (f s, ()) := rfl

@[simp] theorem outcome_push (n : Node) (s : Store) :
    (push n).outcome s = Pure.pure (s.push n) := rfl

@[simp] theorem outcome_call (x : Outcome α) (s : Store) :
    (call x).outcome s = (s, ·) <$> x := by
  obtain ⟨events, _ | a⟩ := x
  · rfl
  · change _ = (⟨events ++ [], .ok (s, a)⟩ : Outcome (Store × α))
    rw [List.append_nil]
    rfl

@[simp] theorem outcome_check (x : Except Fault α) (s : Store) :
    (check x).outcome s = (s, ·) <$> Outcome.ofExcept x := outcome_call ..

@[simp] theorem outcome_takeHooks (given : Hooks) (s : Store) :
    (takeHooks given).outcome s = Outcome.ofExcept (s.takeHooks given) := by
  unfold Procedure.outcome Procedure.takeHooks
  cases s.takeHooks given <;> rfl

theorem outcome_newCondition (given : Hooks) (s : Store) :
    (newCondition given).outcome s = Outcome.ofExcept (s.newCondition given) := by
  rw [newCondition, outcome_bind, outcome_takeHooks]
  unfold Store.newCondition
  cases s.takeHooks given <;> rfl

theorem outcome_newExpression (key operator value : Argument) (given : Hooks) (s : Store) :
    (newExpression key operator value given).outcome s =
      s.newExpression key operator value given := by
  simp only [newExpression, Store.newExpression, outcome_bind, outcome_check, outcome_takeHooks,
    map_eq_pure_bind, bind_assoc, pure_bind]
  refine Outcome.bind_congr_of_ok fun v _ => Outcome.bind_congr_of_ok fun p _ => ?_
  obtain ⟨t, h⟩ := p
  cases h <;> simp [outcome_bind]

theorem setSlots_setSlots {s : Store} {id : NodeId} (hid : s.isBranch id = true)
    (slots more : List Slot) :
    (s.setSlots id slots).setSlots id ((s.setSlots id slots).slots id ++ more) =
      s.setSlots id (slots ++ more) := by
  rw [Store.slots_setSlots_self _ hid]
  have hnodes : ((s.setSlots id slots).setSlots id (slots ++ more)).nodes =
      (s.setSlots id (slots ++ more)).nodes := by
    apply Array.ext_getElem?
    intro i
    rw [Store.nodes_setSlots, Store.nodes_setSlots, Store.nodes_setSlots]
    split
    · rw [Option.map_map]
      rfl
    · rfl
  exact congrArg (fun nodes => (⟨nodes, s.nextIdentity⟩ : Store)) hnodes

theorem outcome_append {s : Store} {owner : NodeId} (ho : s.isBranch owner = true) (j : Join)
    (payload : NodeId) :
    (append owner j payload).outcome s = (·, ()) <$> s.append owner j payload := by
  simp only [append, Store.append, outcome_bind, outcome_look, outcome_write, outcome_call,
    map_eq_pure_bind, bind_assoc, pure_bind, setSlots_setSlots ho]

theorem outcome_attach {s : Store} {owner : NodeId} (ho : s.isBranch owner = true) (j : Join)
    (child : NodeId) :
    (attach owner j child).outcome s = (·, ()) <$> s.attach owner j child := by
  rw [attach, outcome_bind, outcome_look, pure_bind, Store.attach]
  dsimp only
  cases s.reaches child owner with
  | true =>
    rw [if_pos rfl, if_pos rfl, outcome_call]
    rfl
  | false =>
    have hr := (Store.isBranch_rebind s child owner (s.hooks owner)).trans ho
    rw [if_neg Bool.false_ne_true, if_neg Bool.false_ne_true, outcome_bind, outcome_write,
      pure_bind, outcome_append hr]

theorem outcome_appendExpression {s : Store} {owner : NodeId} (ho : s.isBranch owner = true)
    (j : Join) (key operator value : Argument) :
    (appendExpression owner j key operator value).outcome s =
      (·, ()) <$> s.appendExpression owner j key operator value := by
  simp only [appendExpression, Store.appendExpression, outcome_bind, outcome_look,
    outcome_newExpression, pure_bind, map_bind]
  refine Outcome.bind_congr_of_ok fun p hp => ?_
  obtain ⟨u, k, v, hu, -, ht, -⟩ := Store.newExpression_eq_ok hp
  refine outcome_append ?_ j p.2
  rw [ht]
  exact Store.isBranch_push_of_takeHooks hu _ ho

theorem condition?_eq_none {s : Store} {first : Argument}
    (h : ∀ id, first = .node id → s.isBranch id = false) : condition? s first = none := by
  cases first with
  | node id => simp [condition?, h id rfl]
  | value | hooks | list | tuple | map => rfl

theorem outcome_add {s : Store} {owner : NodeId} (ho : s.isBranch owner = true) (j : Join)
    (a : Arguments) : (add owner j a).outcome s = (·, ()) <$> s.add owner j a := by
  obtain ⟨first, operator, value⟩ := a
  rw [add, outcome_bind, outcome_look, pure_bind]
  dsimp only
  -- the first argument is a condition to nest, or else a key
  by_cases hf : ∃ child, first = .node child ∧ s.isBranch child = true
  · obtain ⟨child, rfl, hc⟩ := hf
    rw [Store.add_nested hc, condition?, if_pos hc]
    dsimp only
    split
    · exact outcome_call ..
    · exact outcome_attach ho j child
  · have hkeyed : ∀ id, first = .node id → s.isBranch id = false := by simpa using hf
    rw [Store.add_keyed hkeyed, condition?_eq_none hkeyed]
    cases Store.argumentText? first with
    | none => rfl
    | some key =>
      rcases operator with _ | operator
      · exact outcome_call ..
      · rcases value with _ | value
        · exact outcome_call ..
        · dsimp only
          split
          · exact outcome_appendExpression ho j first operator value
          · rfl

theorem outcome_setJoin (id : NodeId) (index join : Value) (s : Store) :
    (setJoin id index join).outcome s =
      (·, ()) <$> Outcome.ofExcept (s.setJoin id index join) := by
  rw [setJoin, Store.setJoin, outcome_bind, outcome_check]
  cases coerceJoin join with
  | error e => rfl
  | ok j =>
    rw [Outcome.ofExcept_ok, map_pure, pure_bind, outcome_bind, outcome_look, pure_bind, outcome_bind,
      outcome_check]
    dsimp only
    cases Store.checkIndex (s.slots id).length index <;> rfl

/-! ### Restoring -/

theorem outcome_keepLastJoin {s : Store} {id : NodeId} {records : List Record}
    (hlen : (s.slots id).length = records.length) :
    (keepLastJoin id records).outcome s = Pure.pure (s.keepLastJoin id records, ()) := by
  unfold keepLastJoin Store.keepLastJoin
  cases hlast : records.getLast? with
  | none => rfl
  | some last =>
    dsimp only
    rw [outcome_setJoin, Store.setJoin_getLast hlast hlen, Outcome.ofExcept_ok, map_pure]

mutual

theorem outcome_addRecords {owner : NodeId} {hooks : Hooks} {previous : Join} {s : Store} :
    ∀ records, s.isBranch owner = true →
      (addRecords owner hooks previous records).outcome s =
        (·, ()) <$> Store.addRecords owner hooks previous records s
  | [], _ => rfl
  | r :: rest, ho => by
    rw [addRecords, Store.addRecords, outcome_bind, outcome_addRecord r ho, bind_map_left, map_bind]
    refine Outcome.bind_congr_of_ok fun u hu => ?_
    exact outcome_addRecords rest ((Store.Edits.of_addRecord r ho hu).isBranch ho)

theorem outcome_addRecord {owner : NodeId} {hooks : Hooks} {previous : Join} {s : Store} :
    ∀ record, s.isBranch owner = true →
      (addRecord owner hooks previous record).outcome s =
        (·, ()) <$> Store.addRecord owner hooks previous record s
  | .expression _ _ _ _, ho => outcome_appendExpression ho previous _ _ _
  | .condition _ records, ho => by
    rw [addRecord, Store.addRecord, outcome_bind, outcome_newCondition, map_bind]
    refine Outcome.bind_congr_of_ok fun ⟨u, child⟩ hu => ?_
    rw [Outcome.result_ofExcept] at hu
    have hchild := (Store.Edits.of_newCondition hu).2
    rw [outcome_bind, outcome_addRecords records hchild, bind_map_left, map_bind]
    refine Outcome.bind_congr_of_ok fun w hw => ?_
    have hlen := (Store.foldl_recordsCalls records hchild hw).2.length_of_newCondition hu
    rw [outcome_bind, outcome_keepLastJoin hlen, pure_bind]
    exact outcome_attach ((Store.Edits.of_filled hu hw).1.isBranch ho) previous child

end

theorem outcome_replay (hooks : Hooks) (records : List Record) (s : Store) :
    (replay hooks records).outcome s = s.replay hooks records := by
  rw [replay, Store.replay, outcome_bind, outcome_newCondition]
  refine Outcome.bind_congr_of_ok fun ⟨u, id⟩ hu => ?_
  rw [Outcome.result_ofExcept] at hu
  have hid := (Store.Edits.of_newCondition hu).2
  rw [outcome_bind, outcome_addRecords records hid, bind_map_left]
  refine Outcome.bind_congr_of_ok fun w hw => ?_
  have hlen := (Store.foldl_recordsCalls records hid hw).2.length_of_newCondition hu
  rw [outcome_bind, outcome_keepLastJoin hlen, pure_bind]
  rfl

theorem outcome_restore (encoded : Value) (given : Hooks) (format : Value) (s : Store) :
    (restore encoded given format).outcome s = s.restore encoded given format := by
  rw [restore, Store.restore, outcome_bind, outcome_call, bind_map_left]
  refine Outcome.bind_congr_of_ok fun records _ => ?_
  rw [outcome_bind, outcome_takeHooks]
  refine Outcome.bind_congr_of_ok fun ⟨u, hooks⟩ _ => ?_
  rw [outcome_bind, outcome_replay]
  refine Outcome.bind_congr_of_ok fun ⟨w, id⟩ _ => ?_
  rw [outcome_bind, outcome_call, bind_map_left]
  rfl

end Procedure
end FilterTree
