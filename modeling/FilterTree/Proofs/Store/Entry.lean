import FilterTree.Proofs.Store.CommonHooks

/-! How expressions come into the store. An append makes one only from a key and an operator that are
texts and a value that has a normal form, and only where the owner's hooks let it pass. -/

namespace FilterTree

theorem exists_text_of_argumentText? {a : Argument} (h : (Store.argumentText? a).isSome = true) :
    ∃ v : Value, a = .value v ∧ v.text?.isSome = true := by
  cases a with
  | value v => exact ⟨v, rfl, h⟩
  | node | hooks | list | tuple | map => cases h

namespace Store

def contextOf (s : Store) (key operator value : Argument) : Context :=
  ⟨key.operand s.see, operator.coerced.operand s.see, value.operand s.see⟩

theorem viewWithin_congr {s t : Store} (h : t.nodes = s.nodes) (d : Nat) (id : NodeId) :
    t.viewWithin d id = s.viewWithin d id := by
  induction d generalizing id with
  | zero => rfl
  | succ d ih => simp only [viewWithin, h, ih]

theorem see_congr {s t : Store} (h : t.nodes = s.nodes) : t.see = s.see := by
  funext id
  simp only [see, view, viewWithin_congr h, h]

theorem newExpression_set {s u : Store} {given : Hooks} {k : Nat} {own : HookSet}
    (hu : s.takeHooks given = .ok (u, .set k own)) (key operator : Argument) {value v : Argument}
    (hv : value.normal = .ok v) :
    s.newExpression key operator value given =
      (do
        validate own (s.contextOf key operator v)
        return u.push ⟨.set k own, .leaf key operator.coerced v⟩) := by
  unfold newExpression
  rw [hv, hu, contextOf, ← see_congr (takeHooks_eq_ok hu)]
  rfl

theorem appendExpression_passed {s t : Store} {owner : NodeId} {j : Join}
    {key operator value : Argument}
    (h : (s.appendExpression owner j key operator value).result = .ok t) :
    ∃ u k own v, s.takeHooks (s.hooks owner) = .ok (u, .set k own) ∧ value.normal = .ok v ∧
      (validate own (s.contextOf key operator v)).result = .ok () ∧
      t = (u.push ⟨.set k own, .leaf key operator.coerced v⟩).1.setSlots owner
        (joinLast j (s.slots owner) ++ [⟨j, s.nodes.size⟩]) := by
  obtain ⟨u, g, v, hu, hv, rfl⟩ := appendExpression_eq_ok h
  obtain ⟨k, own, rfl⟩ := exists_set_of_takeHooks hu
  obtain ⟨⟨w, id⟩, hw, -⟩ := Outcome.bind_eq_ok_iff.mp h
  rw [newExpression_set hu key operator hv] at hw
  obtain ⟨⟨⟩, hpassed, -⟩ := Outcome.bind_eq_ok_iff.mp hw
  exact ⟨u, k, own, v, hu, hv, hpassed, rfl⟩

theorem add_eq_ok_of_texts {s t : Store} {owner : NodeId} {j : Join} {a : Arguments}
    (h : (s.add owner j a).result = .ok t) :
    (∃ child, a = ⟨.node child, none, none⟩ ∧ s.isBranch child = true ∧
      (s.attach owner j child).result = .ok t) ∨
    ∃ key operator : Value, ∃ value, a = ⟨.value key, some (.value operator), some value⟩ ∧
      key.text?.isSome = true ∧ operator.text?.isSome = true ∧
      (s.appendExpression owner j (.value key) (.value operator) value).result = .ok t := by
  rcases add_eq_ok h with hnested | ⟨first, operator, value, rfl, happend⟩
  · exact .inl hnested
  · refine .inr ?_
    by_cases hf : ∃ child, first = .node child ∧ s.isBranch child = true
    · obtain ⟨child, rfl, hc⟩ := hf
      simp [add_nested hc] at h
    · rw [add_keyed (by simpa using hf)] at h
      split at h
      · simp at h
      · next key hkey =>
        dsimp only at h
        split at h
        · next hop =>
          obtain ⟨k, rfl, hk⟩ := exists_text_of_argumentText? (Option.isSome_of_eq_some hkey)
          obtain ⟨o, rfl, ho⟩ := exists_text_of_argumentText? hop
          exact ⟨k, o, value, rfl, hk, ho, happend⟩
        · simp at h

end Store

end FilterTree
