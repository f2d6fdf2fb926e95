import FilterTree.Proofs.Restore.RoundTrip
import FilterTree.Proofs.Tree.Overlay

/-! Hooks given to a restoring and hooks given to a rendering come to the same, as long as no leaf
is turned down: the nodes of a condition restored without hooks have none of their own. -/

namespace FilterTree

namespace Tree

mutual

def contexts : Tree → List Context
  | .leaf _ _ c => [c]
  | .branch _ _ slots => contextsOfSlots slots

def contextsOfSlots : List (Join × Tree) → List Context
  | [] => []
  | (_, t) :: rest => contexts t ++ contextsOfSlots rest

end

mutual

theorem contexts_unnumbered : ∀ t : Tree, t.unnumbered.contexts = t.contexts
  | .leaf _ _ _ => rfl
  | .branch _ _ slots => contextsOfSlots_unnumberedSlots slots

theorem contextsOfSlots_unnumberedSlots : ∀ slots : List (Join × Tree),
    contextsOfSlots (unnumberedSlots slots) = contextsOfSlots slots
  | [] => rfl
  | (_, t) :: rest => by
    rw [unnumberedSlots, contextsOfSlots, contextsOfSlots, contexts_unnumbered t,
      contextsOfSlots_unnumberedSlots rest]

end

end Tree

namespace Record
open FilterTree.Tree

mutual

theorem admitted_of_contexts {h : HookSet} {hooks : Hooks} :
    ∀ r : Record, (∀ c ∈ (r.tree hooks).contexts, h.Admits c) → r.Admitted h
  | .expression _ _ _ _, hall => hall _ (List.mem_singleton_self _)
  | .condition _ records, hall => allAdmitted_of_contexts records hall

theorem allAdmitted_of_contexts {h : HookSet} {hooks : Hooks} :
    ∀ records : List Record, (∀ c ∈ contextsOfSlots (trees hooks records), h.Admits c) →
      AllAdmitted h records
  | [], _ => trivial
  | r :: rest, hall =>
    ⟨admitted_of_contexts r fun c hc => hall c (List.mem_append_left _ hc),
      allAdmitted_of_contexts rest fun c hc => hall c (List.mem_append_right _ hc)⟩

end

section
variable {overrides : Hooks} {h : HookSet}

mutual

theorem result_renderWith_tree (ho : ∀ n : HookName, overrides.lookup n.name = .ok (h.get n))
    (k l : Nat) : ∀ r : Record,
      (renderWith overrides (r.tree (.set k .empty))).result =
        (renderWith .none (r.tree (.set l h))).result
  | .expression _ _ _ _ => result_renderExpression_congr (fun n => by
      rw [resolved_eq (ho n) (Hooks.lookup_set k .empty n),
        resolved_eq (a := none) rfl (Hooks.lookup_set l h n), HookSet.get_empty, Option.or_none,
        Option.none_or]) _
  | .condition _ records => result_renderWith_branch (result_renderSlots_trees ho k l records)

theorem result_renderSlots_trees (ho : ∀ n : HookName, overrides.lookup n.name = .ok (h.get n))
    (k l : Nat) : ∀ records : List Record,
      (renderSlots overrides (trees (.set k .empty) records)).result =
        (renderSlots .none (trees (.set l h) records)).result
  | [] => rfl
  | r :: rest => by
    rw [trees, trees, result_renderSlots_cons, result_renderSlots_cons,
      result_renderWith_tree ho k l r, result_renderSlots_trees ho k l rest]
    cases r <;> rfl

end

end

end Record

namespace Store
open Record

mutual

theorem storable_of_addRecord {owner : NodeId} {hooks : Hooks} {previous : Join} {s t : Store} :
    ∀ r : Record, (addRecord owner hooks previous r s).result = .ok t → r.Storable
  | .expression _ _ _ _, h => by
    obtain ⟨u, k, v, -, hv, -⟩ := appendExpression_eq_ok h
    obtain ⟨hends, hsortable, -⟩ := Argument.normal_eq_ok_iff.mp hv
    exact ⟨hends, hsortable⟩
  | .condition _ records, h => by
    obtain ⟨p, -, h⟩ := Outcome.bind_eq_ok_iff.mp h
    obtain ⟨w, hw, -⟩ := Outcome.bind_eq_ok_iff.mp h
    exact allStorable_of_addRecords records hw

theorem allStorable_of_addRecords {owner : NodeId} {hooks : Hooks} {previous : Join}
    {s t : Store} : ∀ records : List Record,
      (addRecords owner hooks previous records s).result = .ok t → AllStorable records
  | [], _ => trivial
  | r :: rest, h => by
    obtain ⟨u, hu, h⟩ := Outcome.bind_eq_ok_iff.mp h
    exact ⟨storable_of_addRecord r hu, allStorable_of_addRecords rest h⟩

end

theorem exists_records_of_restore {s t : Store} {data format : Value} {id : NodeId}
    (h : (s.restore data .none format).result = .ok (t, id)) :
    ∃ records, (decode data format).result = .ok records ∧ AllStorable records ∧
      (t.view id).unnumbered = .branch 0 (.set 0 .empty) (trees (.set 0 .empty) records) := by
  obtain ⟨records, hooks, v, w, hdec, -, hadd, -⟩ := exists_filled_of_restore h
  have hr := allStorable_of_addRecords records hadd
  have hnone : Hooks.resolve s.nextIdentity .none = .ok (0, .empty) := rfl
  obtain ⟨u, hu, -, hview⟩ := restore_eq_ok hnone rfl hdec hr
  rw [h] at hu
  cases hu
  exact ⟨records, hdec, hr, hview⟩

/-- Restoring with hooks that turn no leaf down makes what renders as the condition restored
without them does when it is rendered with them. -/
theorem exists_restore_of_admitted {given : Hooks} (hu : given.Usable) {s t : Store}
    {data format : Value} {id : NodeId} (h : (s.restore data .none format).result = .ok (t, id))
    (hpass : ∀ c ∈ (t.view id).contexts, ∀ hook, given.defines .validate = some hook →
      ∃ v, (hook.run c).result = .ok v) (s' : Store) :
    ∃ u new, (s'.restore data given format).result = .ok (u, new) ∧
      ((u.view new).render .none).result = ((t.view id).render given).result := by
  obtain ⟨records, hdec, hr, hview⟩ := exists_records_of_restore h
  obtain ⟨k, own, hresolve, hget⟩ := Hooks.exists_resolve hu s'.nextIdentity
  have hseen : ∀ c ∈ Tree.contextsOfSlots (trees (.set 0 .empty) records), own.Admits c := by
    intro c hc hook hhook
    refine hpass c ?_ hook ((hget .validate).symm.trans hhook)
    rw [← Tree.contexts_unnumbered, hview]
    exact hc
  have hadm := allAdmitted_of_contexts records hseen
  obtain ⟨u, hrestore, -, hnew⟩ := restore_eq_ok_of_admitted hresolve hadm hdec hr
  refine ⟨u, _, hrestore, ?_⟩
  rw [← Tree.render_unnumbered, ← Tree.render_unnumbered (t.view id), hnew, hview]
  cases records with
  | nil => rfl
  | cons r rest =>
    obtain ⟨overrides, hlookup, hrender⟩ := Tree.exists_render hu
    have hown (n : HookName) : overrides.lookup n.name = .ok (own.get n) := by
      rw [hlookup, hget]
    rw [hrender _ (fun _ _ => by simp [trees])]
    have hslots := result_renderSlots_trees hown 0 k (r :: rest)
    exact (Tree.result_renderWith_branch (k := 0) (l := .set k own) hslots).symm

end Store

/-- What a call hands over as hooks counts as if it had been put over the hook sets of all leaves.
Its hook for whole expressions never gives way to that of a leaf, and it makes no difference whether
hooks are given to a restoring or to the rendering of what is restored. -/
theorem Tree.render_overlaid (given : Hooks) (hu : given.Usable) :
    (∀ t : Tree, t.Hooked →
      (t.render given).result = ((t.overlaid given.defines).render .none).result) ∧
    (∀ hook c v, given.defines .renderExpression = some hook → (hook.run c).result = .ok v →
      v.truthy = false → ∀ (id k : Nat) (own : HookSet) (whole : Option Hook),
        ((leaf id (.set k (own.put .renderExpression whole)) c).render given).result =
          (renderParts c .none (.set k (own.overlaid given.defines))).result) ∧
    ∀ (s s' t : Store) (data format : Value) (id : NodeId),
      (s.restore data .none format).result = .ok (t, id) →
      (∀ c ∈ (t.view id).contexts, ∀ hook, given.defines .validate = some hook →
        ∃ v, (hook.run c).result = .ok v) →
      ∃ u new, (s'.restore data given format).result = .ok (u, new) ∧
        ((u.view new).render .none).result = ((t.view id).render given).result :=
  ⟨fun _ ht => result_render_overlaid hu ht,
    fun _ _ _ hhook hrun hv => result_render_of_falsy hu hhook hrun hv,
    fun _ s' _ _ _ _ h hpass => Store.exists_restore_of_admitted hu h hpass s'⟩

namespace Tree

/-- Hooks of a call in both spellings: one for keys, one for whole expressions that gives nothing,
none for values, and one that asks for texts. -/
def quiet : Hooks :=
  .mapping [(.text "render_key", .absent),
    (.text "renderKey", .hook ⟨"framed", fun c => pure (.text ("<" ++ c.key.plain ++ ">"))⟩),
    (.text "render_value", .absent),
    (.text "renderExpression", .hook ⟨"silent", fun _ => pure .null⟩),
    (.text "validate", .hook ⟨"text", fun c =>
      match c.value with
      | .value (.text _) => pure .null
      | _ => .fail (.other .value "no text")⟩)]

def mixed : Tree :=
  .branch 0 .none [(.or, .leaf 1
      (.set 1 (HookSet.empty.put .renderExpression (some ⟨"loud", fun _ => pure (.text "!")⟩)))
      ⟨.value (.text "a"), .value (.operator .eq), .value (.text "x")⟩),
    (.and, .branch 2 .none [(.and, .leaf 3
      (.set 2 (HookSet.empty.put .renderOperator (some ⟨"word", fun _ => pure (.text " is ")⟩)))
      ⟨.value (.text "b"), .value (.operator .eq), .value (.text "y")⟩)])]

def oneText : Value :=
  .list [.map [(.text "joinOperator", .text "or"), (.text "expression",
    .map [(.text "key", .text "a"), (.text "operator", .text "eq"), (.text "value", .text "x")])]]

theorem render_overlaid_quiet :
    ((mixed.overlaid quiet.defines).render .none).result = .ok (.text "<a>=x or (<b> is y)") ∧
    ∃ u new, (Store.empty.restore oneText quiet .null).result = .ok (u, new) ∧
      ((u.view new).render .none).result = .ok (.text "<a>=x") := by
  have hquiet : quiet.Usable := by
    intro e he
    simp only [List.mem_cons, List.not_mem_nil, or_false] at he
    rcases he with rfl | rfl | rfl | rfl | rfl
    · exact ⟨⟨.renderKey, rfl⟩, nofun⟩
    · exact ⟨⟨.renderKey, rfl⟩, nofun⟩
    · exact ⟨⟨.renderValue, rfl⟩, nofun⟩
    · exact ⟨⟨.renderExpression, rfl⟩, nofun⟩
    · exact ⟨⟨.validate, rfl⟩, nofun⟩
  have hmixed : mixed.Hooked := ⟨⟨1, _, rfl⟩, ⟨⟨2, _, rfl⟩, trivial⟩, trivial⟩
  obtain ⟨hover, -, hrestore⟩ := render_overlaid quiet hquiet
  have hdec : (decode oneText .null).result = .ok [.expression .or "a" "eq" (.text "x")] := by
    with_unfolding_all rfl
  have hnone : Hooks.resolve Store.empty.nextIdentity .none = .ok (0, .empty) := rfl
  obtain ⟨t, ht, -, hview⟩ := Store.restore_eq_ok hnone rfl hdec ⟨⟨rfl, rfl⟩, trivial⟩
  generalize Store.empty.nodes.size = root at ht hview
  have hpass : ∀ c ∈ (t.view root).contexts, ∀ hook, quiet.defines .validate = some hook →
      ∃ v, (hook.run c).result = .ok v := by
    intro c hc hook hhook
    rw [← contexts_unnumbered, hview] at hc
    rw [List.mem_singleton.mp hc]
    have hvalidate : quiet.defines .validate = some _ := rfl
    rw [hvalidate] at hhook
    cases hhook
    exact ⟨_, rfl⟩
  obtain ⟨u, new, hu, hrender⟩ := hrestore .empty .empty t oneText .null _ ht hpass
  refine ⟨?_, u, new, hu, ?_⟩
  · rw [← hover mixed hmixed]
    with_unfolding_all rfl
  · rw [hrender, ← render_unnumbered, hview]
    with_unfolding_all rfl

end Tree

end FilterTree
