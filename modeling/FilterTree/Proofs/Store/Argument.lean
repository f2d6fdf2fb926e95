import FilterTree.Proofs.Outcome
import FilterTree.Tree.Store
import Mathlib.Tactic.Tauto

/-! Values and other arguments of a call, in the form in which expressions keep them. What stands in
the way of that form is one of two faults, and the nodes in an argument stay where they are. -/

namespace FilterTree

namespace Value

mutual

theorem obstacle?_eq_none_iff : ∀ v : Value,
    v.obstacle? = none ↔ v.isEndless = false ∧ v.isSortable = true
  | .set xs | .frozenset xs => by
    rw [obstacle?, isEndless, isSortable]
    cases areLegible xs <;> cases anyEndless xs <;> simp
  | .list xs | .tuple xs => firstObstacle?_eq_none_iff xs
  | .map es => obstacleOfEntries?_eq_none_iff es
  | .null | .bool _ | .int _ | .float _ | .nan _ | .text _ | .operator _ | .join _ | .bytes _
  | .buffer _ | .date _ _ | .moment _ _ | .loop _ => by simp [obstacle?, isEndless, isSortable]
  | .foreign _ record => by cases hends : record.isEndless <;> simp [obstacle?, isEndless, hends,
      isSortable]

theorem firstObstacle?_eq_none_iff : ∀ xs : List Value,
    firstObstacle? xs = none ↔ anyEndless xs = false ∧ areSortable xs = true
  | [] => by simp [firstObstacle?, anyEndless, areSortable]
  | x :: xs => by
    rw [firstObstacle?, Option.or_eq_none_iff, obstacle?_eq_none_iff x,
      firstObstacle?_eq_none_iff xs, anyEndless, areSortable, Bool.or_eq_false_iff,
      Bool.and_eq_true_iff]
    tauto

theorem obstacleOfEntries?_eq_none_iff : ∀ es : List (Value × Value),
    obstacleOfEntries? es = none ↔ anyEntryEndless es = false ∧ entriesSortable es = true
  | [] => by simp [obstacleOfEntries?, anyEntryEndless, entriesSortable]
  | (k, v) :: es => by
    rw [obstacleOfEntries?, Option.or_eq_none_iff, obstacleOfEntries?_eq_none_iff es,
      anyEntryEndless, entriesSortable, Bool.or_eq_false_iff, Bool.or_eq_false_iff,
      Bool.and_eq_true_iff]
    cases hk : k.isEndless with
    | true => simp
    | false =>
      simp only [Bool.false_eq_true, if_false, obstacle?_eq_none_iff v, true_and]
      tauto

end

mutual

theorem fault_of_obstacle? : ∀ (v : Value) {f : Fault}, v.obstacle? = some f →
    f = .endless ∧ v.isEndless = true ∨ f = .longInteger ∧ v.isSortable = false
  | .set xs, f, h | .frozenset xs, f, h => by
    rw [obstacle?] at h
    split at h
    · next hlong => exact .inr ⟨(Option.some.inj h).symm, by simpa [isSortable] using hlong⟩
    · split at h
      · next hends => exact .inl ⟨(Option.some.inj h).symm, hends⟩
      · cases h
  | .list xs, _, h | .tuple xs, _, h => fault_of_firstObstacle? xs h
  | .map es, _, h => fault_of_obstacleOfEntries? es h
  | .null, f, h | .bool _, f, h | .int _, f, h | .float _, f, h | .nan _, f, h | .text _, f, h
  | .operator _, f, h | .join _, f, h | .bytes _, f, h | .buffer _, f, h | .date _ _, f, h
  | .moment _ _, f, h | .loop _, f, h | .foreign _ _, f, h => by
    rw [obstacle?, Option.ite_none_right_eq_some] at h
    · exact .inl ⟨(Option.some.inj h.2).symm, h.1⟩
    all_goals exact nofun

theorem fault_of_firstObstacle? : ∀ (xs : List Value) {f : Fault}, firstObstacle? xs = some f →
    f = .endless ∧ anyEndless xs = true ∨ f = .longInteger ∧ areSortable xs = false
  | [], _, h => by cases h
  | x :: xs, f, h => by
    rcases Option.or_eq_some_iff.mp h with hx | ⟨-, hxs⟩
    · exact (fault_of_obstacle? x hx).imp (.imp id fun hx => by simp [anyEndless, hx])
        (.imp id fun hx => by simp [areSortable, hx])
    · exact (fault_of_firstObstacle? xs hxs).imp (.imp id fun hxs => by simp [anyEndless, hxs])
        (.imp id fun hxs => by simp [areSortable, hxs])

theorem fault_of_obstacleOfEntries? : ∀ (es : List (Value × Value)) {f : Fault},
    obstacleOfEntries? es = some f →
      f = .endless ∧ anyEntryEndless es = true ∨ f = .longInteger ∧ entriesSortable es = false
  | [], _, h => by cases h
  | (k, v) :: es, f, h => by
    rcases Option.or_eq_some_iff.mp h with hv | ⟨-, hes⟩
    · split at hv
      · next hk => exact .inl ⟨(Option.some.inj hv).symm, by simp [anyEntryEndless, hk]⟩
      · exact (fault_of_obstacle? v hv).imp (.imp id fun hv => by simp [anyEntryEndless, hv])
          (.imp id fun hv => by simp [entriesSortable, hv])
    · exact (fault_of_obstacleOfEntries? es hes).imp
        (.imp id fun hes => by simp [anyEntryEndless, hes])
        (.imp id fun hes => by simp [entriesSortable, hes])

end

end Value

namespace Argument

/-! ### Normal forms -/

theorem normal_eq_ok_iff {v : Value} {a : Argument} : (Argument.value v).normal = .ok a ↔
    v.isEndless = false ∧ v.isSortable = true ∧ a = .value v.normal := by
  rw [← and_assoc, ← v.obstacle?_eq_none_iff, normal]
  cases v.obstacle? with
  | some f => simp
  | none => simp [eq_comm]

theorem normal_value_eq_error_iff {v : Value} {e : Fault} :
    (Argument.value v).normal = .error e ↔ v.obstacle? = some e := by
  rw [normal]
  cases v.obstacle? with
  | some f => simp
  | none => simp

mutual

theorem fault_of_normal : ∀ (a : Argument) {e : Fault}, a.normal = .error e →
    e = .endless ∨ e = .longInteger
  | .value v, _, h =>
    (v.fault_of_obstacle? (normal_value_eq_error_iff.mp h)).imp And.left And.left
  | .node _, _, h | .hooks _, _, h => by cases h
  | .list xs, _, h | .tuple xs, _, h => fault_of_normalAll xs (except_map_eq_error_iff.mp h)
  | .map es, _, h => fault_of_normalEntries es (except_map_eq_error_iff.mp h)

theorem fault_of_normalAll : ∀ (xs : List Argument) {e : Fault}, normalAll xs = .error e →
    e = .endless ∨ e = .longInteger
  | [], _, h => by cases h
  | x :: xs, e, h => by
    rcases except_bind_eq_error_iff.mp h with h | ⟨y, -, h⟩
    · exact fault_of_normal x h
    · rcases except_bind_eq_error_iff.mp h with h | ⟨ys, -, h⟩
      · exact fault_of_normalAll xs h
      · cases h

theorem fault_of_normalEntries : ∀ (es : List (Value × Argument)) {e : Fault},
    normalEntries es = .error e → e = .endless ∨ e = .longInteger
  | [], _, h => by cases h
  | (_, x) :: es, e, h => by
    rcases except_bind_eq_error_iff.mp h with h | ⟨y, -, h⟩
    · exact fault_of_normal x h
    · rcases except_bind_eq_error_iff.mp h with h | ⟨fs, -, h⟩
      · exact fault_of_normalEntries es h
      · cases h

end

/-! ### Nodes -/

mutual

theorem nodes_of_normal : ∀ (a : Argument) {b : Argument}, a.normal = .ok b → b.nodes = a.nodes
  | .value v, b, h => by
    obtain ⟨-, -, rfl⟩ := normal_eq_ok_iff.mp h
    rfl
  | .node _, b, h | .hooks _, b, h => by
    cases h
    rfl
  | .list xs, b, h | .tuple xs, b, h => by
    obtain ⟨ys, hys, rfl⟩ := except_map_eq_ok_iff.mp h
    exact nodesAmong_of_normalAll xs hys
  | .map es, b, h => by
    obtain ⟨fs, hfs, rfl⟩ := except_map_eq_ok_iff.mp h
    exact nodesOfEntries_of_normalEntries es hfs

theorem nodesAmong_of_normalAll : ∀ (xs : List Argument) {ys : List Argument},
    normalAll xs = .ok ys → nodesAmong ys = nodesAmong xs
  | [], ys, h => by
    cases h
    rfl
  | x :: xs, ys, h => by
    obtain ⟨y, hy, h⟩ := except_bind_eq_ok_iff.mp h
    obtain ⟨rest, hrest, h⟩ := except_bind_eq_ok_iff.mp h
    cases h
    rw [nodesAmong, nodesAmong, nodes_of_normal x hy, nodesAmong_of_normalAll xs hrest]

theorem nodesOfEntries_of_normalEntries : ∀ (es : List (Value × Argument))
    {fs : List (Value × Argument)}, normalEntries es = .ok fs → nodesOfEntries fs = nodesOfEntries es
  | [], ys, h => by
    cases h
    rfl
  | (_, x) :: es, fs, h => by
    obtain ⟨y, hy, h⟩ := except_bind_eq_ok_iff.mp h
    obtain ⟨rest, hrest, h⟩ := except_bind_eq_ok_iff.mp h
    cases h
    rw [nodesOfEntries, nodesOfEntries, nodes_of_normal x hy,
      nodesOfEntries_of_normalEntries es hrest]

end

mutual

theorem operand_congr {see see' : NodeId → Operand} : ∀ a : Argument,
    (∀ n ∈ a.nodes, see n = see' n) → a.operand see = a.operand see'
  | .value _, _ | .hooks _, _ => rfl
  | .node n, h => h n (List.mem_singleton_self n)
  | .list xs, h => congrArg Operand.list (operands_congr xs h)
  | .tuple xs, h => congrArg Operand.tuple (operands_congr xs h)
  | .map es, h => congrArg Operand.map (entryOperands_congr es h)

theorem operands_congr {see see' : NodeId → Operand} : ∀ xs : List Argument,
    (∀ n ∈ nodesAmong xs, see n = see' n) → operands see xs = operands see' xs
  | [], _ => rfl
  | x :: xs, h => by
    rw [nodesAmong, List.forall_mem_append] at h
    rw [operands, operands, operand_congr x h.1, operands_congr xs h.2]

theorem entryOperands_congr {see see' : NodeId → Operand} : ∀ es : List (Value × Argument),
    (∀ n ∈ nodesOfEntries es, see n = see' n) → entryOperands see es = entryOperands see' es
  | [], _ => rfl
  | (k, x) :: es, h => by
    rw [nodesOfEntries, List.forall_mem_append] at h
    rw [entryOperands, entryOperands, operand_congr x h.1, entryOperands_congr es h.2]

end

mutual

theorem asValue_operand_congr {see see' : NodeId → Operand} : ∀ a : Argument,
    (∀ n ∈ a.nodes, (see n).asValue = (see' n).asValue) →
      (a.operand see).asValue = (a.operand see').asValue
  | .value _, _ | .hooks _, _ => rfl
  | .node n, h => h n (List.mem_singleton_self n)
  | .list xs, h => congrArg Value.list (asValues_operands_congr xs h)
  | .tuple xs, h => congrArg Value.tuple (asValues_operands_congr xs h)
  | .map es, h => congrArg Value.map (asEntries_entryOperands_congr es h)

theorem asValues_operands_congr {see see' : NodeId → Operand} : ∀ xs : List Argument,
    (∀ n ∈ nodesAmong xs, (see n).asValue = (see' n).asValue) →
      Operand.asValues (operands see xs) = Operand.asValues (operands see' xs)
  | [], _ => rfl
  | x :: xs, h => by
    rw [nodesAmong, List.forall_mem_append] at h
    rw [operands, operands, Operand.asValues, Operand.asValues, asValue_operand_congr x h.1,
      asValues_operands_congr xs h.2]

theorem asEntries_entryOperands_congr {see see' : NodeId → Operand} :
    ∀ es : List (Value × Argument),
      (∀ n ∈ nodesOfEntries es, (see n).asValue = (see' n).asValue) →
        Operand.asEntries (entryOperands see es) = Operand.asEntries (entryOperands see' es)
  | [], _ => rfl
  | (k, x) :: es, h => by
    rw [nodesOfEntries, List.forall_mem_append] at h
    rw [entryOperands, entryOperands, Operand.asEntries, Operand.asEntries,
      asValue_operand_congr x h.1, asEntries_entryOperands_congr es h.2]

end

end Argument

end FilterTree
