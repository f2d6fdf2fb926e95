import FilterTree.Proofs.Json.RoundTrip
import FilterTree.Proofs.Restore.Acceptance
import FilterTree.Proofs.Store.History
import FilterTree.Proofs.Tree.Bare

/-! Writing a condition as JSON and restoring it. A tree is the tree of the records that spell it,
and the text of these is read as just these. -/

namespace FilterTree

namespace Tree
open Record

/-! ### The records of a tree -/

/-- Whether a leaf compares a string, by whatever operator, with the normal form of a value that can
be written. -/
def IsPortableLeaf (_ : Hooks) (c : Context) : Prop :=
  ∃ key operator v, v.Portable ∧ c =
    ⟨.value (.text key), .value (coerceOperator (.text operator)), .value (Value.normal v)⟩

def Portable (t : Tree) : Prop :=
  t.AllLeaves IsPortableLeaf

def AllPortable (slots : List (Join × Tree)) : Prop :=
  AllLeavesOfSlots IsPortableLeaf slots

mutual

def toRecord (j : Join) : Tree → Record
  | .leaf _ _ c => .expression j c.key.plain c.operator.plain c.value.asValue
  | .branch _ _ slots => .condition j (toRecords slots)

def toRecords : List (Join × Tree) → List Record
  | [] => []
  | (j, t) :: rest => toRecord j t :: toRecords rest

end

theorem join_toRecord (j : Join) (t : Tree) : (t.toRecord j).join = j := by
  cases t <;> rfl

theorem plain_operator (operator : String) :
    (Operand.value (coerceOperator (.text operator))).plain = operator :=
  plain_coerceOperator_text operator

mutual

theorem isJson_toRecord (j : Join) : ∀ t : Tree, t.Portable → (t.toRecord j).IsJson
  | .leaf _ _ _, ⟨_, _, v, hv, hc⟩ => by
    subst hc
    exact (Value.normal_of_portable v hv).2
  | .branch _ _ slots, ht => areJson_toRecords slots ht

theorem areJson_toRecords : ∀ slots : List (Join × Tree), AllPortable slots →
    AreJson (toRecords slots)
  | [], _ => trivial
  | (j, t) :: rest, ht => ⟨isJson_toRecord j t ht.1, areJson_toRecords rest ht.2⟩

end

mutual

theorem wire_toRecord (j : Join) : ∀ t : Tree, t.Portable →
    (t.toRecord j).wire = Wire.slot j t.fieldName t.record
  | .leaf _ _ _, ⟨key, operator, v, _, hc⟩ => by
    subst hc
    rw [toRecord, wire, record, Context.toMap, plain_operator]
    rfl
  | .branch _ _ slots, ht => by
    rw [toRecord, wire, wireAll_toRecords slots ht]
    rfl

theorem wireAll_toRecords : ∀ slots : List (Join × Tree), AllPortable slots →
    wireAll (toRecords slots) = recordOfSlots slots
  | [], _ => rfl
  | (j, t) :: rest, ht => by
    rw [toRecords, wireAll, wire_toRecord j t ht.1, wireAll_toRecords rest ht.2]
    rfl

end

theorem portable_slot (j : Join) {name : String} (hname : name ≠ "joinOperator") {payload : Value}
    (hp : payload.Portable) : (Wire.slot j name payload).Portable := by
  refine ⟨rfl, fun e he h => ?_, trivial, rfl, nofun, hp, trivial⟩
  rw [List.mem_singleton.mp he] at h
  exact hname (Value.text.inj h)

theorem portable_leaf (key operator : String) {v : Value} (hv : v.Portable) :
    (Wire.leaf key operator v).Portable := by
  refine ⟨rfl, fun e he => ?_, trivial, rfl, fun e he => ?_, trivial, rfl, nofun, hv, trivial⟩
  · rcases List.mem_cons.mp he with rfl | he
    · simp
    · rw [List.mem_singleton.mp he]
      simp
  · rw [List.mem_singleton.mp he]
    simp

mutual

theorem portable_record : ∀ t : Tree, t.Portable → t.record.Portable
  | .leaf _ _ _, ⟨key, operator, v, hv, hc⟩ => by
    subst hc
    exact portable_leaf key _ (Value.normal_of_portable v hv).1
  | .branch _ _ slots, ht => allPortable_recordOfSlots slots ht

theorem allPortable_recordOfSlots : ∀ slots : List (Join × Tree), AllPortable slots →
    Value.AllPortable (recordOfSlots slots)
  | [], _ => trivial
  | (j, t) :: rest, ht => by
    have hname : t.fieldName ≠ "joinOperator" := by cases t <;> simp [fieldName]
    exact ⟨portable_slot j hname (portable_record t ht.1), allPortable_recordOfSlots rest ht.2⟩

end

/-! ### The same text -/

/-- Whether no leaf has hooks of its own. Those of branches play no part. -/
def Bare (t : Tree) : Prop :=
  t.AllLeaves fun h _ => h.IsBare

def AllBare (slots : List (Join × Tree)) : Prop :=
  AllLeavesOfSlots (fun h _ => h.IsBare) slots

mutual

theorem renderWith_unnumbered (o : Hooks) : ∀ t : Tree, t.unnumbered.renderWith o = t.renderWith o
  | .leaf _ _ _ => rfl
  | .branch _ _ slots => by
    rw [unnumbered, renderWith, renderWith, renderSlots_unnumberedSlots o slots]

theorem renderSlots_unnumberedSlots (o : Hooks) : ∀ slots : List (Join × Tree),
    renderSlots o (unnumberedSlots slots) = renderSlots o slots
  | [] => rfl
  | (j, t) :: rest => by
    rw [unnumberedSlots, renderSlots, renderSlots, renderWith_unnumbered o t,
      renderSlots_unnumberedSlots o rest]
    cases t <;> rfl

end

mutual

theorem renderWith_tree (o : Hooks) {h : Hooks} (hh : h.IsBare) (j : Join) : ∀ t : Tree,
    t.Portable → t.Bare → ((t.toRecord j).tree h).renderWith o = t.renderWith o
  | .leaf _ _ _, ⟨key, operator, v, hv, hc⟩, hb => by
    subst hc
    -- a replay takes the normal form once more
    have hnormal : v.normal.normal = v.normal :=
      (Value.kept_of_isJson _ (Value.normal_of_portable v hv).2).1
    rw [toRecord, Record.tree, plain_operator, Operand.asValue, hnormal, renderWith, renderWith]
    exact renderExpression_congr hh hb _ o
  | .branch _ _ slots, ht, hb => by
    rw [toRecord, Record.tree, renderWith, renderWith, renderSlots_trees o hh slots ht hb]

theorem renderSlots_trees (o : Hooks) {h : Hooks} (hh : h.IsBare) :
    ∀ slots : List (Join × Tree), AllPortable slots → AllBare slots →
    renderSlots o (trees h (toRecords slots)) = renderSlots o slots
  | [], _, _ => rfl
  | (j, t) :: rest, ht, hb => by
    rw [toRecords, trees, renderSlots, renderSlots, renderWith_tree o hh j t ht.1 hb.1,
      renderSlots_trees o hh rest ht.2 hb.2, join_toRecord]
    cases t <;> rfl

end

theorem render_branch_congr {i k : NodeId} {h l : Hooks} {xs ys : List (Join × Tree)}
    (hempty : xs = [] ↔ ys = []) (hslots : ∀ o, renderSlots o xs = renderSlots o ys)
    (overrides : Hooks) :
    render overrides (.branch i h xs) = render overrides (.branch k l ys) := by
  have hwith (o : Hooks) : renderWith o (.branch i h xs) = renderWith o (.branch k l ys) := by
    rw [renderWith, renderWith, hslots o]
  cases xs with
  | nil =>
    rw [hempty.mp rfl]
    rfl
  | cons x xs =>
    cases ys with
    | nil => cases hempty.mpr rfl
    | cons y ys =>
      unfold render
      simp only [hwith]

theorem render_unnumbered (t : Tree) (overrides : Hooks) :
    t.unnumbered.render overrides = t.render overrides := by
  cases t with
  | leaf => rfl
  | branch i h slots =>
    have hempty : unnumberedSlots slots = [] ↔ slots = [] := by
      cases slots <;> simp [unnumberedSlots]
    exact render_branch_congr hempty (fun o => renderSlots_unnumberedSlots o slots) overrides

theorem render_trees {i k : NodeId} {h l : Hooks} (hh : h.IsBare) {slots : List (Join × Tree)}
    (ht : AllPortable slots) (hb : AllBare slots) (overrides : Hooks) :
    render overrides (.branch i h (trees h (toRecords slots))) =
      render overrides (.branch k l slots) := by
  have hempty : trees h (toRecords slots) = [] ↔ slots = [] := by
    cases slots <;> simp [toRecords, trees]
  exact render_branch_congr hempty (fun o => renderSlots_trees o hh slots ht hb) overrides

end Tree

/-! ### Text and bytes -/

theorem fromUTF8?_toUTF8 (s : String) :
    String.fromUTF8? ⟨s.toUTF8.data.toList.toArray⟩ = some s := by
  have hvalid : (ByteArray.mk s.toUTF8.data).IsValidUTF8 := s.isValidUTF8
  rw [Array.toArray_toList]
  unfold String.fromUTF8?
  rw [dif_pos hvalid]
  rfl

theorem result_loadText {text : String} {v : Value} (h : Json.read text = .ok v)
    {format : Option Format} (hf : format ≠ some .yaml) :
    (loadText text format).result = .ok v := by
  match format, hf with
  | none, _ =>
    unfold loadText
    rw [h]
    rfl
  | some .json, _ =>
    unfold loadText
    rw [h]
    rfl
  | some .yaml, hf => exact absurd rfl hf

theorem result_loadEncoded {text : String} {v : Value} {f : Option Format}
    (h : (loadText text f).result = .ok v) {encoded format : Value}
    (hencoded : encoded = .text text ∨ encoded = .bytes text.toUTF8.data.toList)
    (hformat : Format.ofOptional format = .ok f) :
    (loadEncoded encoded format).result = .ok v := by
  have hread : ((do
      let f ← Outcome.ofExcept (Format.ofOptional format)
      loadText text f) : Outcome Value).result = .ok v := by
    rw [Outcome.result_bind_of_ok _ (by rw [Outcome.result_ofExcept, hformat])]
    exact h
  rcases hencoded with rfl | rfl
  · exact hread
  · unfold loadEncoded
    simp only [fromUTF8?_toUTF8]
    exact hread

namespace Store
open Record FilterTree.Tree

theorem exists_dump {i : NodeId} {h : Hooks} {slots : List (Join × Tree)}
    (hp : Tree.AllPortable slots) : ∃ text,
    (Tree.branch i h slots).dump (.text "json") = .ok text ∧ ∀ encoded format : Value,
      (encoded = .text text ∨ encoded = .bytes text.toUTF8.data.toList) →
      (format = .null ∨ format = .text "json") →
      (decode encoded format).result = .ok (toRecords slots) := by
  have hwire := wireAll_toRecords slots hp
  have hjson : (Tree.branch i h slots).record.isJson = true := by
    rw [Tree.record, ← hwire]
    exact areJson_wireAll _ (areJson_toRecords slots hp)
  obtain ⟨text, htext, hspells⟩ :=
    Json.spells_write _ hjson (portable_record (.branch i h slots) hp)
  refine ⟨text, htext, fun encoded format hencoded hformat => ?_⟩
  obtain ⟨f, hf, hne⟩ : ∃ f, Format.ofOptional format = .ok f ∧ f ≠ some .yaml := by
    rcases hformat with rfl | rfl
    · exact ⟨none, rfl, nofun⟩
    · exact ⟨some .json, rfl, nofun⟩
  have hread := result_loadEncoded (result_loadText hspells.read hne) hencoded hf
  unfold decode
  rw [Outcome.result_bind_of_ok _ hread, Tree.record, ← hwire]
  simp only [Value.sequence?, ofItems_wireAll]
  rfl

theorem exists_view_of_isBranch {s : Store} {id : NodeId} (hid : s.isBranch id = true) :
    ∃ h slots, s.view id = .branch id h slots := by
  obtain ⟨d, hd⟩ := Nat.exists_eq_add_one_of_ne_zero
    (Nat.ne_of_gt (Nat.zero_lt_of_lt (lt_size_of_isBranch hid)))
  rw [view, hd, viewWithin]
  unfold isBranch at hid
  split at hid
  · next h slots hn =>
    rw [hn]
    exact ⟨_, _, rfl⟩
  · cases hid

/-- A condition is restored from its text with the record that it had, and with the text that it
renders to where no hooks are involved. -/
theorem restore_dump (actions : List Action) {id : NodeId}
    (hid : (run actions).isBranch id = true) (hp : ((run actions).view id).Portable) :
    ∃ text, ((run actions).view id).dump (.text "json") = .ok text ∧
      ∀ (s : Store) (encoded format : Value),
        (encoded = .text text ∨ encoded = .bytes text.toUTF8.data.toList) →
        (format = .null ∨ format = .text "json") →
        ∃ t root, (s.restore encoded .none format).result = .ok (t, root) ∧
          (t.view root).record = ((run actions).view id).record ∧
          (((run actions).view id).Bare → ∀ overrides,
            (t.view root).render overrides = ((run actions).view id).render overrides) := by
  obtain ⟨h, slots, hview⟩ := exists_view_of_isBranch hid
  rw [hview] at hp ⊢
  obtain ⟨text, htext, hdecode⟩ := exists_dump (i := id) (h := h) hp
  refine ⟨text, htext, fun s encoded format hencoded hformat => ?_⟩
  have hjson := areJson_toRecords slots hp
  have hdec := hdecode encoded format hencoded hformat
  have hnone : Hooks.resolve s.nextIdentity .none = .ok (Hooks.emptyIdentity, .empty) := rfl
  obtain ⟨t, ht, -, htree⟩ :=
    restore_eq_ok (s := s) hnone rfl hdec (allStorable_of_areJson _ hjson)
  refine ⟨t, _, ht, ?_, fun hb overrides => ?_⟩
  · rw [← record_unnumbered, htree, Tree.record, Tree.record, recordOfSlots_trees _ hjson,
      wireAll_toRecords slots hp]
  · rw [← render_unnumbered, htree]
    exact render_trees (Hooks.isBare_empty _) hp hb overrides

/-- A condition that nests another one twice. -/
def nestedTwice : List Action :=
  [.create .none, .create .none,
    .add 1 .or [.value (.text "a\""), .value (.text "eq"), .value (.set [.null])] [],
    .add 1 .and [.value (.text ""), .value (.text "among"),
      .value (.tuple [.float (.finite false (2 ^ 52) (-52)), .bool true])] [],
    .add 0 .and [.node 1] [], .add 0 .or [.node 1] []]

theorem restore_dump_nestedTwice : ∃ text,
    ((run nestedTwice).view 0).dump (.text "json") = .ok text ∧
      ∃ t root, (empty.restore (.text text) .none .null).result = .ok (t, root) ∧
        (t.view root).record = ((run nestedTwice).view 0).record ∧
        (t.view root).render .none = ((run nestedTwice).view 0).render .none := by
  have hbranch : (run nestedTwice).isBranch 0 = true := by decide +kernel
  have hnested : (run nestedTwice).view 1 = .branch 1 (.set 0 .empty)
      [(.and, .leaf 2 (.set 0 .empty) ⟨.value (.text "a\""), .value (.operator .eq),
        .value (Value.normal (.set [.null]))⟩),
      (.and, .leaf 3 (.set 0 .empty) ⟨.value (.text ""), .value (.text "among"),
        .value (.list [.float (.finite false (2 ^ 52) (-52)), .bool true])⟩)] := rfl
  have hview : (run nestedTwice).view 0 = .branch 0 (.set 0 .empty)
      [(.or, (run nestedTwice).view 1), (.or, (run nestedTwice).view 1)] := rfl
  have hempty := Hooks.isBare_empty 0
  have hfloat : (Value.float (.finite false (2 ^ 52) (-52))).Portable :=
    ⟨by decide, by decide, by decide, fun _ => Nat.le_refl _⟩
  have hp : ((run nestedTwice).view 0).Portable := by
    have hshared : ((run nestedTwice).view 1).Portable := by
      rw [hnested]
      exact ⟨⟨_, "eq", .set [.null], ⟨trivial, trivial⟩, rfl⟩,
        ⟨_, "among", .tuple [_, .bool true], ⟨hfloat, trivial, trivial⟩, rfl⟩, trivial⟩
    rw [hview]
    exact ⟨hshared, hshared, trivial⟩
  have hb : ((run nestedTwice).view 0).Bare := by
    have hshared : ((run nestedTwice).view 1).Bare := by
      rw [hnested]
      exact ⟨hempty, hempty, trivial⟩
    rw [hview]
    exact ⟨hshared, hshared, trivial⟩
  obtain ⟨text, htext, hrestore⟩ := restore_dump nestedTwice hbranch hp
  obtain ⟨t, root, ht, hrecord, hrender⟩ := hrestore empty (.text text) .null (.inl rfl) (.inl rfl)
  exact ⟨text, htext, t, root, ht, hrecord, hrender hb .none⟩

end Store

end FilterTree
