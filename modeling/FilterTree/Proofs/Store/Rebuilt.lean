import FilterTree.Proofs.Restore.Grammar
import FilterTree.Proofs.Store.Argument
import FilterTree.Proofs.Store.Edit
import FilterTree.Proofs.Value.Legible
import FilterTree.Proofs.Value.Projection

/-! Expressions that are made again from their records. An expression keeps the normal form of its
value, and the normal form of that is no other, so that the record of the new one is the same. -/

namespace FilterTree

open Value (Relisted)

theorem Argument.normal_of_isNormal {v : Value} (h : v.isNormal = true) (hends : v.isEndless = false) :
    (Argument.value v).normal = .ok (.value v) :=
  normal_eq_ok_iff.mpr ⟨hends, v.isSortable_of_isNormal h, by rw [v.normal_eq_self h]⟩

namespace Argument

mutual

/-- An argument with lists in place of its tuples and sets. What nodes and hook sets are in it stay
as they are. -/
inductive Relisted : Argument → Argument → Prop
  | value {v w : Value} (h : Value.Relisted v w) (hw : w.isNormal = true) :
      Relisted (.value v) (.value w)
  | node (id : NodeId) : Relisted (.node id) (.node id)
  | hooks (h : HookSet) : Relisted (.hooks h) (.hooks h)
  | list {xs ys : List Argument} (h : AllRelisted xs ys) : Relisted (.list xs) (.list ys)
  | tuple {xs ys : List Argument} (h : AllRelisted xs ys) : Relisted (.tuple xs) (.list ys)
  | map {es fs : List (Value × Argument)} (h : EntriesRelisted es fs) :
      Relisted (.map es) (.map fs)

inductive AllRelisted : List Argument → List Argument → Prop
  | nil : AllRelisted [] []
  | cons {x y : Argument} {xs ys : List Argument} (h : Relisted x y) (hs : AllRelisted xs ys) :
      AllRelisted (x :: xs) (y :: ys)

inductive EntriesRelisted : List (Value × Argument) → List (Value × Argument) → Prop
  | nil : EntriesRelisted [] []
  | cons {k : Value} {x y : Argument} {es fs : List (Value × Argument)} (h : Relisted x y)
      (hs : EntriesRelisted es fs) : EntriesRelisted ((k, x) :: es) ((k, y) :: fs)

end

mutual

theorem relisted_of_normal : ∀ (a : Argument) {b : Argument}, a.normal = .ok b →
    a.Relisted b ∧ b.normal = .ok b
  | .value v, b, h => by
    obtain ⟨hends, -, rfl⟩ := normal_eq_ok_iff.mp h
    exact ⟨.value v.relisted_normal v.isNormal_normal,
      normal_of_isNormal v.isNormal_normal (v.isEndless_normal.trans hends)⟩
  | .node id, _, h => by
    cases h
    exact ⟨.node id, rfl⟩
  | .hooks k, _, h => by
    cases h
    exact ⟨.hooks k, rfl⟩
  | .list xs, _, h => by
    obtain ⟨ys, hys, rfl⟩ := except_map_eq_ok_iff.mp h
    obtain ⟨hall, hfixed⟩ := allRelisted_of_normalAll xs hys
    exact ⟨.list hall, except_map_eq_ok_iff.mpr ⟨ys, hfixed, rfl⟩⟩
  | .tuple xs, _, h => by
    obtain ⟨ys, hys, rfl⟩ := except_map_eq_ok_iff.mp h
    obtain ⟨hall, hfixed⟩ := allRelisted_of_normalAll xs hys
    exact ⟨.tuple hall, except_map_eq_ok_iff.mpr ⟨ys, hfixed, rfl⟩⟩
  | .map es, _, h => by
    obtain ⟨fs, hfs, rfl⟩ := except_map_eq_ok_iff.mp h
    obtain ⟨hall, hfixed⟩ := entriesRelisted_of_normalEntries es hfs
    exact ⟨.map hall, except_map_eq_ok_iff.mpr ⟨fs, hfixed, rfl⟩⟩

theorem allRelisted_of_normalAll : ∀ (xs : List Argument) {ys : List Argument},
    normalAll xs = .ok ys → AllRelisted xs ys ∧ normalAll ys = .ok ys
  | [], _, h => by
    cases h
    exact ⟨.nil, rfl⟩
  | x :: xs, _, h => by
    obtain ⟨y, hy, h⟩ := except_bind_eq_ok_iff.mp h
    obtain ⟨ys, hys, h⟩ := except_bind_eq_ok_iff.mp h
    cases h
    obtain ⟨hx, hfixed⟩ := relisted_of_normal x hy
    obtain ⟨hxs, hrest⟩ := allRelisted_of_normalAll xs hys
    refine ⟨.cons hx hxs, ?_⟩
    rw [normalAll, hfixed, hrest]
    rfl

theorem entriesRelisted_of_normalEntries : ∀ (es : List (Value × Argument))
    {fs : List (Value × Argument)}, normalEntries es = .ok fs →
      EntriesRelisted es fs ∧ normalEntries fs = .ok fs
  | [], _, h => by
    cases h
    exact ⟨.nil, rfl⟩
  | (_, x) :: es, _, h => by
    obtain ⟨y, hy, h⟩ := except_bind_eq_ok_iff.mp h
    obtain ⟨fs, hfs, h⟩ := except_bind_eq_ok_iff.mp h
    cases h
    obtain ⟨hx, hfixed⟩ := relisted_of_normal x hy
    obtain ⟨hes, hrest⟩ := entriesRelisted_of_normalEntries es hfs
    refine ⟨.cons hx hes, ?_⟩
    rw [normalEntries, hfixed, hrest]
    rfl

end

end Argument

def Value.leafRecord (key operator v : Value) : Value :=
  .map [(.text "key", key), (.text "operator", operator), (.text "value", v)]

namespace Store

theorem normal_set_tooLong :
    Argument.normal (.value (.set [.int Value.tooLong])) = .error .longInteger := by
  rw [Argument.normal_value_eq_error_iff, Value.obstacle?, Value.areLegible,
    Value.isLegible_tooLong]
  rfl

/-- Every expression that is made of three parts, wherever and with whatever hooks, has a certain
record. Without hooks there is one. -/
def MakesRecord (key operator v record : Value) : Prop :=
  ∀ s : Store,
    (∃ t id, (s.newExpression (.value key) (.value operator) (.value v) .none).result = .ok (t, id)) ∧
    ∀ given t id,
      (s.newExpression (.value key) (.value operator) (.value v) given).result = .ok (t, id) →
        (t.view id).record = record

variable {key operator v : Value}

theorem view_push_leaf (s : Store) (h : Hooks) (key operator v : Value) :
    (s.push ⟨h, .leaf (.value key) (.value operator) (.value v)⟩).1.view s.nodes.size =
      .leaf s.nodes.size h ⟨.value key, .value operator, .value v⟩ := by
  unfold view push
  dsimp only
  rw [Array.size_push, viewWithin]
  simp [Argument.operand]

theorem record_newExpression {s t : Store} {given : Hooks} {id : NodeId}
    (h : (s.newExpression (.value key) (.value operator) (.value v) given).result = .ok (t, id)) :
    (t.view id).record = Value.leafRecord key (.text (coerceOperator operator).plain) v.normal := by
  obtain ⟨u, k, w, hu, hw, rfl, rfl⟩ := newExpression_eq_ok h
  obtain ⟨-, -, rfl⟩ := Argument.normal_eq_ok_iff.mp hw
  rw [← takeHooks_eq_ok hu]
  exact congrArg Tree.record (view_push_leaf u k key (coerceOperator operator) v.normal)

theorem makes_record (key operator : Value) (hends : v.isEndless = false)
    (hsortable : v.isSortable = true) :
    MakesRecord key operator v (.leafRecord key (.text (coerceOperator operator).plain) v.normal) := by
  refine fun s => ⟨?_, fun given t id => record_newExpression⟩
  have hv := Argument.normal_eq_ok_iff.mpr ⟨hends, hsortable, rfl⟩
  have hnone : s.takeHooks .none = .ok
      ({ s with nextIdentity := max s.nextIdentity (Hooks.emptyIdentity + 1) },
        .set Hooks.emptyIdentity .empty) := rfl
  unfold newExpression
  rw [Outcome.result_bind_of_ok _ ((Outcome.result_ofExcept _).trans hv),
    Outcome.result_bind_of_ok _ ((Outcome.result_ofExcept _).trans hnone)]
  exact ⟨_, _, rfl⟩

theorem makes_again (key operator : Value) (hends : v.isEndless = false) :
    MakesRecord key (.text (coerceOperator operator).plain) v.normal
      (.leafRecord key (.text (coerceOperator operator).plain) v.normal) := by
  -- the name of an operator is coerced to the same operator, as the normal form is to itself
  have h := makes_record key (.text (coerceOperator operator).plain)
    (v.isEndless_normal.trans hends) (v.normal.isSortable_of_isNormal v.isNormal_normal)
  rwa [plain_coerceOperator_text, v.normal_normal] at h

/-- The normal form of a value, which is there unless the value holds itself or a set with an integer
that cannot be written, is one of lists and mappings alone, keeps what is in the value, and is its own
normal form. Whatever an expression with the value shows in its record makes that record again. With
conditions in a collection it is no different. -/
theorem normal_projects (v : Value) :
    ((∃ a, (Argument.value v).normal = .ok a) ↔ v.isEndless = false ∧ v.isSortable = true) ∧
    (∀ e, (Argument.value v).normal = .error e →
      e = .endless ∧ v.isEndless = true ∨ e = .longInteger ∧ v.isSortable = false) ∧
    (v.isNormal = true → v.isEndless = false → (Argument.value v).normal = .ok (.value v)) ∧
    (∀ a, (Argument.value v).normal = .ok a → ∃ w, a = .value w ∧
      w.isNormal = true ∧ Relisted v w ∧ (Argument.value w).normal = .ok (.value w) ∧
      ∀ key operator : Value, ∃ k o, MakesRecord key operator v (.leafRecord k o w) ∧
        MakesRecord k o w (.leafRecord k o w)) ∧
    ∀ a : Argument, (∀ b, a.normal = .ok b → a.Relisted b ∧ b.normal = .ok b) ∧
      ∀ e, a.normal = .error e → e = .endless ∨ e = .longInteger := by
  refine ⟨⟨fun ⟨a, ha⟩ => ?_, fun ⟨hends, hsortable⟩ => ?_⟩, fun e he => ?_,
    Argument.normal_of_isNormal, fun a ha => ?_,
    fun a => ⟨fun _ => a.relisted_of_normal, fun _ => a.fault_of_normal⟩⟩
  · obtain ⟨hends, hsortable, -⟩ := Argument.normal_eq_ok_iff.mp ha
    exact ⟨hends, hsortable⟩
  · exact ⟨_, Argument.normal_eq_ok_iff.mpr ⟨hends, hsortable, rfl⟩⟩
  · exact v.fault_of_obstacle? (Argument.normal_value_eq_error_iff.mp he)
  · obtain ⟨hends, hsortable, rfl⟩ := Argument.normal_eq_ok_iff.mp ha
    have hfixed := Argument.normal_of_isNormal v.isNormal_normal (v.isEndless_normal.trans hends)
    exact ⟨v.normal, rfl, v.isNormal_normal, Value.relisted_normal v, hfixed, fun key operator =>
      ⟨key, _, makes_record key operator hends hsortable, makes_again key operator hends⟩⟩

/-- A tuple is kept as the key of a mapping, and nowhere else. -/
theorem normal_projects_nested :
    let v : Value := .tuple [.map [(.tuple [.null], .frozenset [.tuple []])], .list [.set []]]
    let w : Value := .list [.map [(.tuple [.null], .list [.list []])], .list [.list []]]
    (Argument.value v).normal = .ok (.value w) ∧ Relisted v w ∧
      (Argument.value w).normal = .ok (.value w) ∧
      ∃ k o, MakesRecord (.text "k") (.text "in") v (.leafRecord k o w) ∧
        MakesRecord k o w (.leafRecord k o w) := by
  intro v w
  have hw : v.normal = w := by
    simp [v, w, Value.normal, Value.normalAll, Value.normalEntries, Value.normalKeyed,
      Value.sortKeyed]
  have hv : (Argument.value v).normal = .ok (.value w) :=
    Argument.normal_eq_ok_iff.mpr ⟨rfl, rfl, by rw [hw]⟩
  obtain ⟨-, -, -, hkept, -⟩ := normal_projects v
  obtain ⟨_, ⟨⟩, -, hrelisted, hfixed, hmakes⟩ := hkept (.value w) hv
  exact ⟨hv, hrelisted, hfixed, hmakes (.text "k") (.text "in")⟩

/-- A set with an integer that cannot be written has an end, but no normal form. -/
theorem normal_ne_ok_of_tooLong : (Value.set [.int Value.tooLong]).isEndless = false ∧
    ∀ a, (Argument.value (.set [.int Value.tooLong])).normal ≠ .ok a := by
  refine ⟨rfl, fun a h => ?_⟩
  rw [normal_set_tooLong] at h
  cases h

end Store

end FilterTree
