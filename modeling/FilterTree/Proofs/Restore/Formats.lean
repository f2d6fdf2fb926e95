import FilterTree.Proofs.Restore.Layouts
import FilterTree.Proofs.Value.Legible
import FilterTree.Proofs.Yaml.RoundTrip

/-! Writing a condition in either format and restoring it. Both texts are read as the same
records. -/

namespace FilterTree

/-! ### Reading in a format -/

theorem Json.read_of_dash {text : String} {cs : List Char} (h : text.toList = '-' :: ' ' :: cs) :
    ∃ cause left, Json.read text = .error (.syntaxFault cause left) := by
  have hno : ∀ w ∈ words, w.1.isPrefixOf ('-' :: ' ' :: cs) = false := by
    simp [words, List.isPrefixOf]
  have hscalar : readScalar ('-' :: ' ' :: cs) =
      .error (.syntaxFault .valueExpected ('-' :: ' ' :: cs)) :=
    readScalar_of_no_word _ hno
  have hvalue : readValue (2 * ('-' :: ' ' :: cs).length + 2) ('-' :: ' ' :: cs) =
      .error (.syntaxFault .valueExpected ('-' :: ' ' :: cs)) := by
    rw [readValue]
    · exact hscalar
    all_goals
      intro rest h
      cases h
  refine ⟨.valueExpected, '-' :: ' ' :: cs, ?_⟩
  have hblank : skipBlanks ('-' :: ' ' :: cs) = '-' :: ' ' :: cs := rfl
  unfold Json.read readChars
  rw [h]
  split
  · next heq => cases heq
  · rw [hblank, hvalue]
    rfl

theorem exists_result_loadText_yaml {Q : List Value → Prop} {xs : List Yaml.Sketch}
    (h : Yaml.DrawsAll 0 Q xs) : ∃ cs,
    (Yaml.write (.sequence xs none)).toList = cs ++ ['\n'] ∧ Yaml.EndsInLine cs ∧
    ∀ format : Option Format, format ≠ some .json → ∃ vs, Q vs ∧ Value.AreStored vs ∧
      (loadText (Yaml.write (.sequence xs none)) format).result = .ok (.list vs) := by
  obtain ⟨l, vs, cs, hread, hvalue, hvs, hstored, htext, hends, hbegin⟩ := h.exists_read
  have hyaml : readYaml (Yaml.write (.sequence xs none)) = .ok (.list vs) := by
    rw [readYaml, hread, ← hvalue]
    rfl
  refine ⟨cs, htext, hends, fun format hf => ?_⟩
  match format, hf with
  | some .yaml, _ =>
    refine ⟨vs, hvs, hstored, ?_⟩
    unfold loadText
    rw [hyaml]
    rfl
  | some .json, hf => exact absurd rfl hf
  | none, _ =>
    rcases hbegin with ⟨hnil, rfl⟩ | ⟨w, rfl⟩
    · have hjson : Json.read (Yaml.write (.sequence xs none)) = .ok (.list []) := by
        rw [Json.read, htext]
        rfl
      refine ⟨[], hnil, trivial, ?_⟩
      unfold loadText
      rw [hjson]
      rfl
    · obtain ⟨cause, left, hjson⟩ := Json.read_of_dash htext
      refine ⟨vs, hvs, hstored, ?_⟩
      unfold loadText
      rw [hjson]
      dsimp only
      rw [hyaml]
      rfl

namespace Store
open Record FilterTree.Tree

theorem exists_dump_yaml {i : NodeId} {h : Hooks} {slots : List (Join × Tree)}
    (hp : Tree.AllPortable slots) (hl : Yaml.AllLast 0 (recordOfSlots slots)) : ∃ text,
    (Tree.branch i h slots).dump (.text "yaml") = .ok text ∧ ∀ encoded format : Value,
      (encoded = .text text ∨ encoded = .bytes text.toUTF8.data.toList) →
      (format = .null ∨ format = .text "yaml") →
      (decode encoded format).result = .ok (toRecords slots) := by
  have hportable := allPortable_recordOfSlots slots hp
  have hjson : Value.areJson (recordOfSlots slots) = true := by
    rw [← wireAll_toRecords slots hp]
    exact areJson_wireAll _ (areJson_toRecords slots hp)
  have hstored := slotsStored_of_allPortable slots hp
  obtain ⟨xs, hxs⟩ := (exactIf_sketchOfSlots [] 0 slots hstored).exists_ok
    (Value.areStored_of_allPortable _ hportable hjson).2
  obtain ⟨-, -, -, hload⟩ := exists_result_loadText_yaml
    (drawsAll_of_sketchOfSlots [] 0 0 slots hstored (Yaml.areInReach_of_allLast 0 _ hl) hxs)
  refine ⟨Yaml.write (.sequence xs none), ?_, fun encoded format hencoded hformat => ?_⟩
  · change ((Tree.branch i h slots).sketch []).map Yaml.write = _
    rw [sketch, hxs]
    rfl
  · obtain ⟨f, hf, hne⟩ : ∃ f, Format.ofOptional format = .ok f ∧ f ≠ some .json := by
      rcases hformat with rfl | rfl
      · exact ⟨none, rfl, nofun⟩
      · exact ⟨some .yaml, rfl, nofun⟩
    obtain ⟨vs, ⟨-, hsame⟩, -, hload⟩ := hload f hne
    have hread := result_loadEncoded hload hencoded hf
    unfold decode
    rw [Outcome.result_bind_of_ok _ hread, hsame hportable hjson hl, ← wireAll_toRecords slots hp]
    simp only [Value.sequence?, ofItems_wireAll]
    rfl

theorem exists_restore {i : NodeId} {h : Hooks} {slots : List (Join × Tree)}
    (hp : Tree.AllPortable slots) {encoded format : Value}
    (hdecode : (decode encoded format).result = .ok (toRecords slots)) (s : Store) :
    ∃ t root, (s.restore encoded .none format).result = .ok (t, root) ∧
      (t.view root).record = (Tree.branch i h slots).record := by
  have hjson := areJson_toRecords slots hp
  have hnone : Hooks.resolve s.nextIdentity .none = .ok (Hooks.emptyIdentity, .empty) := rfl
  obtain ⟨t, ht, -, htree⟩ :=
    restore_eq_ok (s := s) hnone rfl hdecode (allStorable_of_areJson _ hjson)
  refine ⟨t, _, ht, ?_⟩
  rw [← record_unnumbered, htree, Tree.record, Tree.record, recordOfSlots_trees _ hjson,
    wireAll_toRecords slots hp]

/-- A condition is restored from its YAML with the record that it had. -/
theorem restore_dump_yaml (actions : List Action) {id : NodeId}
    (hid : (run actions).isBranch id = true) (hp : ((run actions).view id).Portable)
    (hl : Yaml.Lasts 0 true ((run actions).view id).record) :
    ∃ text, ((run actions).view id).dump (.text "yaml") = .ok text ∧
      ∀ (s : Store) (encoded format : Value),
        (encoded = .text text ∨ encoded = .bytes text.toUTF8.data.toList) →
        (format = .null ∨ format = .text "yaml") →
        ∃ t root, (s.restore encoded .none format).result = .ok (t, root) ∧
          (t.view root).record = ((run actions).view id).record := by
  obtain ⟨h, slots, hview⟩ := exists_view_of_isBranch hid
  rw [hview] at hp hl ⊢
  obtain ⟨text, htext, hdecode⟩ := exists_dump_yaml (i := id) (h := h) hp hl
  exact ⟨text, htext, fun s encoded format hencoded hformat =>
    exists_restore hp (hdecode encoded format hencoded hformat) s⟩

/-- A condition that nests another one, which compares a mapping. -/
def nestedMapping : List Action :=
  [.create .none, .create .none,
    .add 1 .or [.value (.text "a: b"), .value (.text "eq"),
      .value (.map [(.text "1", .tuple [.text "", .int (-1), .float (.infinite true)])])] [],
    .add 0 .and [.node 1] []]

theorem view_nestedMapping : (run nestedMapping).view 0 = .branch 0 (.set 0 .empty)
    [(.and, .branch 1 (.set 0 .empty) [(.or, .leaf 2 (.set 0 .empty)
      ⟨.value (.text "a: b"), .value (.operator .eq), .value (.map [(.text "1",
        .list [.text "", .int (-1), .float (.infinite true)])])⟩)])] := rfl

theorem portable_nestedMapping : ((run nestedMapping).view 0).Portable := by
  have hone : (Value.int (-1)).isLegible = true :=
    Value.isLegible_of_natAbs_lt_ten (by decide)
  rw [view_nestedMapping]
  exact ⟨⟨⟨_, "eq", .map [(.text "1", .tuple [.text "", .int (-1), .float (.infinite true)])],
    ⟨rfl, List.forall_mem_nil _, ⟨trivial, hone, trivial, trivial⟩, trivial⟩, rfl⟩, trivial⟩,
    trivial⟩

theorem lasts_nestedMapping : Yaml.Lasts 0 true ((run nestedMapping).view 0).record := by
  rw [view_nestedMapping]
  exact Yaml.lasts_of_isClear 0 true _ (by decide) 0 (Nat.le_refl 0)

theorem restore_dump_yaml_nestedMapping : ∃ text,
    ((run nestedMapping).view 0).dump (.text "yaml") = .ok text ∧
      ∃ t root, (empty.restore (.text text) .none .null).result = .ok (t, root) ∧
        (t.view root).record = ((run nestedMapping).view 0).record := by
  obtain ⟨text, htext, hrestore⟩ := @restore_dump_yaml nestedMapping 0 (by decide +kernel)
    portable_nestedMapping lasts_nestedMapping
  exact ⟨text, htext, hrestore empty (.text text) .null (.inl rfl) (.inl rfl)⟩

/-- Whichever of its two texts a condition is restored from, the record is the same. -/
theorem restore_json_eq_restore_yaml (actions : List Action) {id : NodeId}
    (hid : (run actions).isBranch id = true) (hp : ((run actions).view id).Portable)
    (hl : Yaml.Lasts 0 true ((run actions).view id).record) :
    ∃ json yaml, ((run actions).view id).dump (.text "json") = .ok json ∧
      ((run actions).view id).dump (.text "yaml") = .ok yaml ∧
      ∀ (s s' : Store) (encoded encoded' format format' : Value),
        (encoded = .text json ∨ encoded = .bytes json.toUTF8.data.toList) →
        (format = .null ∨ format = .text "json") →
        (encoded' = .text yaml ∨ encoded' = .bytes yaml.toUTF8.data.toList) →
        (format' = .null ∨ format' = .text "yaml") →
        ∃ t root t' root', (s.restore encoded .none format).result = .ok (t, root) ∧
          (s'.restore encoded' .none format').result = .ok (t', root') ∧
          (t.view root).record = (t'.view root').record := by
  obtain ⟨h, slots, hview⟩ := exists_view_of_isBranch hid
  rw [hview] at hp hl ⊢
  obtain ⟨json, hjson, hdecode⟩ := exists_dump (i := id) (h := h) hp
  obtain ⟨yaml, hyaml, hdecode'⟩ := exists_dump_yaml (i := id) (h := h) hp hl
  refine ⟨json, yaml, hjson, hyaml, fun s s' encoded encoded' format format' he hf he' hf' => ?_⟩
  obtain ⟨t, root, ht, hrecord⟩ :=
    exists_restore (i := id) (h := h) hp (hdecode encoded format he hf) s
  obtain ⟨t', root', ht', hrecord'⟩ :=
    exists_restore (i := id) (h := h) hp (hdecode' encoded' format' he' hf') s'
  exact ⟨t, root, t', root', ht, ht', hrecord.trans hrecord'.symm⟩

theorem restore_json_eq_restore_yaml_nestedMapping : ∃ json yaml,
    ((run nestedMapping).view 0).dump (.text "json") = .ok json ∧
      ((run nestedMapping).view 0).dump (.text "yaml") = .ok yaml ∧
      ∃ t root t' root', (empty.restore (.text json) .none .null).result = .ok (t, root) ∧
        (empty.restore (.text yaml) .none .null).result = .ok (t', root') ∧
        (t.view root).record = (t'.view root').record := by
  obtain ⟨json, yaml, hjson, hyaml, hrestore⟩ := @restore_json_eq_restore_yaml nestedMapping 0
    (by decide +kernel) portable_nestedMapping lasts_nestedMapping
  exact ⟨json, yaml, hjson, hyaml, hrestore empty empty (.text json) (.text yaml) .null .null
    (.inl rfl) (.inl rfl) (.inl rfl) (.inl rfl)⟩

end Store

end FilterTree
