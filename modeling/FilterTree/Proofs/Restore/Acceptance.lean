import FilterTree.Tree.Restore
import FilterTree.Proofs.Restore.Grammar

/-! Restoring data that is not text. It succeeds on the grammar and nowhere else, and what it
builds has the canonical record of the data. -/

namespace FilterTree

namespace Record
open Value (field?)

/-! ### Canonical records -/

mutual

def wire : Record → Value
  | .expression j key operator v => Wire.slot j "expression" (Wire.leaf key operator v)
  | .condition j records => Wire.slot j "condition" (.list (wireAll records))

def wireAll : List Record → List Value
  | [] => []
  | r :: rest => wire r :: wireAll rest

end

mutual

def IsJson : Record → Prop
  | .expression _ _ _ v => v.isJson = true
  | .condition _ records => AreJson records

def AreJson : List Record → Prop
  | [] => True
  | r :: rest => IsJson r ∧ AreJson rest

end

mutual

theorem storable_of_isJson : ∀ r : Record, r.IsJson → r.Storable
  | .expression _ _ _ v, h => (Value.kept_of_isJson v h).2
  | .condition _ records, h => allStorable_of_areJson records h

theorem allStorable_of_areJson : ∀ records : List Record, AreJson records → AllStorable records
  | [], _ => trivial
  | r :: rest, h => ⟨storable_of_isJson r h.1, allStorable_of_areJson rest h.2⟩

end

mutual

theorem record_tree {hooks : Hooks} : ∀ r : Record, r.IsJson →
    Wire.slot r.join (r.tree hooks).fieldName (r.tree hooks).record = r.wire
  | .expression j key operator v, h => by
    simp only [tree, Tree.record, Tree.fieldName, Context.toMap, Operand.asValue, Operand.plain,
      plain_coerceOperator_text, (Value.kept_of_isJson v h).1]
    rfl
  | .condition j records, h => by
    simp only [tree, Tree.record, Tree.fieldName, recordOfSlots_trees records h]
    rfl

theorem recordOfSlots_trees {hooks : Hooks} : ∀ records : List Record, AreJson records →
    Tree.recordOfSlots (trees hooks records) = wireAll records
  | [], _ => rfl
  | r :: rest, h => by
    rw [trees, Tree.recordOfSlots, recordOfSlots_trees rest h.2, wireAll, ← record_tree r h.1]
    rfl

end

mutual

theorem isJson_wire : ∀ r : Record, r.IsJson → r.wire.isJson = true
  | .expression _ _ _ v, h => by
    have hv : v.isJson = true := h
    simp [wire, Wire.slot, Wire.leaf, Value.isJson, Value.entriesJson, Value.isText, hv]
  | .condition _ records, h => by
    simpa [wire, Wire.slot, Value.isJson, Value.entriesJson, Value.isText] using
      areJson_wireAll records h

theorem areJson_wireAll : ∀ records : List Record, AreJson records →
    Value.areJson (wireAll records) = true
  | [], _ => rfl
  | r :: rest, h => by
    rw [wireAll, Value.areJson, isJson_wire r h.1, areJson_wireAll rest h.2]
    rfl

end

/-! ### Reading is the grammar -/

mutual

theorem ofValue_of_slot : ∀ {x y : Value}, Wire.Slot x y → x.isJson = true →
    ∃ r, ofValue x = .ok r ∧ r.wire = y
  | _, _, @Wire.Slot.expression es fs j key operator v hj hexp hkey hop hval habs, hx => by
    have hfs := Value.isJson_of_field? hx hexp
    have hread := (expressionOf_eq_ok_iff hfs).mpr ⟨fs, rfl, hkey, hop, hval⟩
    refine ⟨.expression j key operator v, ofValue_map_eq_ok_iff.mpr
      ⟨j, some (key, operator, v), none, (joinOf_eq_ok_iff hx).mpr hj, ?_,
        nestedOf_eq_none_iff.mpr habs, rfl⟩, rfl⟩
    refine (optional_eq_some_iff fun a ha => ?_).mpr ⟨_, hexp, hread⟩
    cases ha
  | _, _, @Wire.Slot.condition es j xs ys hj habs hcond hslots, hx => by
    have hxs := Value.isJson_of_field? hx hcond
    obtain ⟨records, hrecords, rfl⟩ := ofItems_of_slots hslots hxs 0
    refine ⟨.condition j records, ofValue_map_eq_ok_iff.mpr
      ⟨j, none, some records, (joinOf_eq_ok_iff hx).mpr hj, optional_eq_none_iff.mpr habs, ?_,
        rfl⟩, rfl⟩
    rw [nestedOf_eq, hcond]
    exact (ofSequence_eq_some_iff hxs).mpr ⟨xs, rfl, hrecords⟩

theorem ofItems_of_slots : ∀ {xs ys : List Value}, Wire.Slots xs ys → Value.areJson xs = true →
    ∀ i, ∃ records, ofItems i xs = .ok records ∧ wireAll records = ys
  | _, _, .nil, _, _ => ⟨[], rfl, rfl⟩
  | _, _, .cons hslot hslots, hxs, i => by
    have hxs' := Bool.and_eq_true_iff.mp hxs
    obtain ⟨r, hr, rfl⟩ := ofValue_of_slot hslot hxs'.1
    obtain ⟨rest, hrest, rfl⟩ := ofItems_of_slots hslots hxs'.2 (i + 1)
    exact ⟨r :: rest, ofItems_cons_eq_ok_iff.mpr ⟨r, rest, hr, hrest, rfl⟩, rfl⟩

end

mutual

theorem slot_of_ofValue : ∀ {r : Record} {x : Value}, ofValue x = .ok r → x.isJson = true →
    Wire.Slot x r.wire ∧ r.IsJson
  | r, .map es, h, hx => by
    obtain ⟨j, single, nested, hj, hsingle, hnested, hr⟩ := ofValue_map_eq_ok_iff.mp h
    rw [joinOf_eq_ok_iff hx] at hj
    rcases assemble_eq_ok_iff.mp hr with
      ⟨key, operator, v, rfl, rfl, rfl⟩ | ⟨records, rfl, rfl, rfl⟩
    · obtain ⟨w, hw, hread⟩ := (optional_eq_some_iff fun a ha => by cases ha).mp hsingle
      have hjson := Value.isJson_of_field? hx hw
      obtain ⟨fs, rfl, hkey, hop, hval⟩ := (expressionOf_eq_ok_iff hjson).mp hread
      exact ⟨.expression hj hw hkey hop hval (nestedOf_eq_none_iff.mp hnested),
        Value.isJson_of_field? hjson hval⟩
    · obtain ⟨xs, hxs, hslots, hrecords⟩ := slots_of_nestedOf hnested hx
      exact ⟨.condition hj (optional_eq_none_iff.mp hsingle) hxs hslots, hrecords⟩

theorem slots_of_nestedOf : ∀ {records : List Record} {es : List (Value × Value)},
    nestedOf es = .ok (some records) → Value.entriesJson es = true →
    ∃ xs, field? es "condition" = some (.list xs) ∧ Wire.Slots xs (wireAll records) ∧
      AreJson records
  | _, (k, v) :: es, h, hes => by
    rw [nestedOf] at h
    have hes' := Bool.and_eq_true_iff.mp hes
    -- of several entries with the name the first one counts
    by_cases hk : k.same true (.text "condition") = true
    · rw [if_pos hk] at h
      obtain ⟨xs, rfl, hslots⟩ := slots_of_ofSequence h (Bool.and_eq_true_iff.mp hes'.1).2
      exact ⟨xs, by simp [field?, Value.lookup?, hk], hslots⟩
    · rw [if_neg hk] at h
      obtain ⟨xs, hxs, hslots⟩ := slots_of_nestedOf h hes'.2
      exact ⟨xs, by simpa [field?, Value.lookup?, hk] using hxs, hslots⟩

theorem slots_of_ofSequence : ∀ {records : List Record} {v : Value},
    ofSequence v = .ok (some records) → v.isJson = true →
    ∃ xs, v = .list xs ∧ Wire.Slots xs (wireAll records) ∧ AreJson records
  | records, .list xs, h, hxs => by
    obtain ⟨_, hall, hsome⟩ := except_map_eq_ok_iff.mp h
    cases hsome
    exact ⟨xs, rfl, slots_of_ofItems hall hxs⟩

theorem slots_of_ofItems : ∀ {records : List Record} {xs : List Value} {i : Nat},
    ofItems i xs = .ok records → Value.areJson xs = true →
    Wire.Slots xs (wireAll records) ∧ AreJson records
  | _, [], _, h, _ => by
    cases h
    exact ⟨.nil, trivial⟩
  | _, x :: xs, _, h, hxs => by
    obtain ⟨r, rest, hr, hrest, rfl⟩ := ofItems_cons_eq_ok_iff.mp h
    have hxs' := Bool.and_eq_true_iff.mp hxs
    obtain ⟨hslot, hj⟩ := slot_of_ofValue hr hxs'.1
    obtain ⟨hslots, hjs⟩ := slots_of_ofItems hrest hxs'.2
    exact ⟨.cons hslot hslots, hj, hjs⟩

end

theorem joinOf_slot {j : Join} {name : String} {payload : Value} :
    joinOf [(.text "joinOperator", .text j.name), (.text name, payload)] = .ok j := by
  have hj : (Value.text j.name).asJoin = .ok j := (Value.asJoin_eq_ok_iff rfl).mpr rfl
  simp [joinOf, required, hj, Checked.within_eq_ok_iff]

theorem expressionOf_leaf {key operator : String} {v : Value} :
    expressionOf (Wire.leaf key operator v) = .ok (key, operator, v) := by
  have htext (s : String) : (Value.text s).asText = .ok s := rfl
  simp [Wire.leaf, expressionOf, Checked.both_eq_ok_iff, required, htext, Checked.within_eq_ok_iff]

mutual

theorem ofValue_wire : ∀ r : Record, ofValue r.wire = .ok r
  | .expression j key operator v => by
    refine ofValue_map_eq_ok_iff.mpr ⟨j, some (key, operator, v), none, joinOf_slot, ?_,
      nestedOf_eq_none_iff.mpr (.inl (by simp)), rfl⟩
    refine (optional_eq_some_iff fun a ha => ?_).mpr ⟨_, by simp, expressionOf_leaf⟩
    cases ha
  | .condition j records => by
    refine ofValue_map_eq_ok_iff.mpr ⟨j, none, some records, joinOf_slot,
      optional_eq_none_iff.mpr (.inl (by simp)), ?_, rfl⟩
    simp [nestedOf_eq, ofSequence, ofItems_wireAll records 0, Except.map]

theorem ofItems_wireAll : ∀ (records : List Record) (i : Nat),
    ofItems i (wireAll records) = .ok records
  | [], _ => rfl
  | r :: rest, i => ofItems_cons_eq_ok_iff.mpr
      ⟨r, rest, ofValue_wire r, ofItems_wireAll rest (i + 1), rfl⟩

end

end Record

namespace Tree

mutual

theorem record_unnumbered : ∀ t : Tree, t.unnumbered.record = t.record
  | .leaf _ _ _ => rfl
  | .branch _ _ slots => by rw [unnumbered, record, record, recordOfSlots_unnumberedSlots slots]

theorem recordOfSlots_unnumberedSlots : ∀ slots : List (Join × Tree),
    recordOfSlots (unnumberedSlots slots) = recordOfSlots slots
  | [] => rfl
  | (j, t) :: rest => by
    have hname : t.unnumbered.fieldName = t.fieldName := by cases t <;> rfl
    rw [unnumberedSlots, recordOfSlots, recordOfSlots, recordOfSlots_unnumberedSlots rest,
      record_unnumbered t, hname]

end

end Tree

/-! ### Restoring -/

theorem result_decode {data : Value} (hdata : data.isJson = true) (htext : data.isText = false)
    (format : Value) : (decode data format).result =
      match data.sequence? with
      | none => .error (.malformed (.notList data.typeName))
      | some items => (Record.ofItems 0 items).mapError fun faults =>
          .malformed (.badRecords faults) := by
  have hload : loadEncoded data format = pure data := by
    cases data with
    | text => cases htext
    | bytes => cases hdata
    | operator => cases hdata
    | join => cases hdata
    | _ => rfl
  unfold decode
  rw [hload, Outcome.result_bind_of_ok _ (Outcome.result_pure data)]
  cases data.sequence? with
  | none => rfl
  | some items =>
    simp only
    cases Record.ofItems 0 items <;> rfl

theorem Value.sequence?_eq_some_iff {data : Value} (hdata : data.isJson = true) {xs : List Value} :
    data.sequence? = some xs ↔ data = .list xs := by
  cases data <;> simp_all [isJson, sequence?]

namespace Store
open Record

/-- Restoring what decodes to records builds their tree, where no leaf is turned down. -/
theorem restore_eq_ok_of_admitted {s : Store} {encoded format : Value} {hooks : Hooks} {k : Nat}
    {h : HookSet} {records : List Record} (hgiven : hooks.resolve s.nextIdentity = .ok (k, h))
    (hadm : AllAdmitted h records) (hdec : (decode encoded format).result = .ok records)
    (hr : AllStorable records) :
    ∃ t, (s.restore encoded hooks format).result = .ok (t, s.nodes.size) ∧
      (∀ i < s.nodes.size, t.nodes[i]? = s.nodes[i]?) ∧
      (t.view s.nodes.size).unnumbered = .branch 0 (.set k h) (trees (.set k h) records) := by
  have htake : s.takeHooks hooks =
      .ok ({ s with nextIdentity := max s.nextIdentity (k + 1) }, .set k h) := by
    rw [takeHooks, hgiven]
    rfl
  obtain ⟨t, ht, hold, hview⟩ :=
    replay_eq_ok (k := k) hr hadm { s with nextIdentity := max s.nextIdentity (k + 1) }
  refine ⟨t, ?_, hold, hview⟩
  unfold restore
  rw [Outcome.result_bind_of_ok _ hdec,
    Outcome.result_bind_of_ok _ (by rw [Outcome.result_ofExcept, htake])]
  simp only
  rw [Outcome.result_bind_of_ok _ ht]
  rfl

theorem restore_eq_ok {s : Store} {encoded format : Value} {hooks : Hooks} {k : Nat}
    {h : HookSet} {records : List Record} (hgiven : hooks.resolve s.nextIdentity = .ok (k, h))
    (hv : h.validate = none) (hdec : (decode encoded format).result = .ok records)
    (hr : AllStorable records) :
    ∃ t, (s.restore encoded hooks format).result = .ok (t, s.nodes.size) ∧
      (∀ i < s.nodes.size, t.nodes[i]? = s.nodes[i]?) ∧
      (t.view s.nodes.size).unnumbered = .branch 0 (.set k h) (trees (.set k h) records) :=
  restore_eq_ok_of_admitted hgiven (allAdmitted_of_validate_eq_none hv records) hdec hr

theorem restore_eq_error {s : Store} {encoded format : Value} {hooks : Hooks} {e : Fault}
    (hdec : (decode encoded format).result = .error e) :
    (s.restore encoded hooks format).result = .error e :=
  Outcome.result_bind_of_error _ hdec

theorem restore_records {s : Store} {encoded format : Value} {records : List Record}
    (hdec : (decode encoded format).result = .ok records) (hr : AreJson records) :
    ∃ t, (s.restore encoded .none format).result = .ok (t, s.nodes.size) ∧
      (t.view s.nodes.size).record = .list (wireAll records) := by
  have hnone : Hooks.resolve s.nextIdentity .none = .ok (Hooks.emptyIdentity, .empty) := rfl
  obtain ⟨t, ht, -, hview⟩ :=
    restore_eq_ok hnone rfl hdec (allStorable_of_areJson records hr)
  refine ⟨t, ht, ?_⟩
  rw [← Tree.record_unnumbered, hview, Tree.record, recordOfSlots_trees records hr]

theorem decode_eq_ok_iff {data format : Value} (hdata : data.isJson = true)
    (htext : data.isText = false) {records : List Record} :
    (decode data format).result = .ok records ↔
      ∃ xs, data = .list xs ∧ Record.ofItems 0 xs = .ok records := by
  rw [result_decode hdata htext]
  cases hxs : data.sequence? with
  | none =>
    refine iff_of_false (by simp) ?_
    rintro ⟨xs, rfl, -⟩
    cases hxs
  | some xs =>
    obtain rfl := (Value.sequence?_eq_some_iff hdata).mp hxs
    cases h : ofItems 0 xs <;> simp [Except.mapError, h]

theorem kind_of_decode {data format : Value} (hdata : data.isJson = true)
    (htext : data.isText = false) {e : Fault} (h : (decode data format).result = .error e) :
    e.kind = .malformed := by
  rw [result_decode hdata htext] at h
  cases hxs : data.sequence? with
  | none =>
    rw [hxs] at h
    cases h
    rfl
  | some xs =>
    simp only [hxs] at h
    cases hi : ofItems 0 xs with
    | ok records =>
      rw [hi] at h
      cases h
    | error faults =>
      rw [hi] at h
      cases h
      rfl

/-- Data that is no text is restored exactly if it spells a condition; all else is malformed. The
record of the result is the canonical one, and gives itself when it is restored. -/
theorem restore_exact_on_grammar (s : Store) {data : Value} (format : Value)
    (hdata : data.isJson = true) (htext : data.isText = false) :
    ((∃ t id, (s.restore data .none format).result = .ok (t, id)) ↔
      ∃ record, Wire.Whole data record) ∧
    ((¬∃ record, Wire.Whole data record) →
      ∃ e, (s.restore data .none format).result = .error e ∧ e.kind = .malformed) ∧
    ∀ t id record, (s.restore data .none format).result = .ok (t, id) →
      Wire.Whole data record → (t.view id).record = record ∧
        ∀ u : Store, ∃ w i, (u.restore record .none format).result = .ok (w, i) ∧
          (w.view i).record = record := by
  have haccept : ∀ record, Wire.Whole data record → ∃ records,
      (decode data format).result = .ok records ∧ AreJson records ∧
        record = .list (wireAll records) := by
    rintro _ ⟨xs, ys, rfl, rfl, hslots⟩
    obtain ⟨records, hrecords, rfl⟩ := ofItems_of_slots hslots hdata 0
    exact ⟨records, (decode_eq_ok_iff hdata htext).mpr ⟨xs, rfl, hrecords⟩,
      (slots_of_ofItems hrecords hdata).2, rfl⟩
  have hreject : ∀ records, (decode data format).result = .ok records →
      Wire.Whole data (.list (wireAll records)) := by
    intro records h
    obtain ⟨xs, rfl, hrecords⟩ := (decode_eq_ok_iff hdata htext).mp h
    exact ⟨xs, _, rfl, rfl, (slots_of_ofItems hrecords hdata).1⟩
  refine ⟨⟨?_, ?_⟩, ?_, ?_⟩
  · rintro ⟨t, id, h⟩
    obtain ⟨records, hdec, -⟩ := Outcome.bind_eq_ok_iff.mp h
    exact ⟨_, hreject records hdec⟩
  · rintro ⟨record, h⟩
    obtain ⟨records, hdec, hjson, -⟩ := haccept record h
    obtain ⟨t, ht, -⟩ := restore_records (s := s) hdec hjson
    exact ⟨t, _, ht⟩
  · intro h
    cases hdec : (decode data format).result with
    | ok records => exact absurd ⟨_, hreject records hdec⟩ h
    | error e => exact ⟨e, restore_eq_error hdec, kind_of_decode hdata htext hdec⟩
  · intro t id record ht h
    obtain ⟨records, hdec, hjson, rfl⟩ := haccept record h
    obtain ⟨t', ht', hrecord⟩ := restore_records (s := s) hdec hjson
    rw [ht] at ht'
    cases ht'
    refine ⟨hrecord, fun u => ?_⟩
    have hcanonical : (Value.list (wireAll records)).isJson = true := areJson_wireAll records hjson
    have hagain : (decode (.list (wireAll records)) format).result = .ok records :=
      (decode_eq_ok_iff hcanonical rfl).mpr ⟨_, rfl, ofItems_wireAll records 0⟩
    obtain ⟨w, hw, hsame⟩ := restore_records (s := u) hagain hjson
    exact ⟨w, _, hw, hsame⟩

/-- An empty condition under the other name for its join, with an entry of no meaning beside. -/
theorem restore_exact_on_grammar_aliased :
    let data : Value := .list [.map [(.text "join_operator", .text "or"), (.text "note", .int 3),
      (.text "expression", .null), (.text "condition", .list [])]]
    data.isJson = true ∧ data.isText = false ∧
      ∃ t id, (empty.restore data .none .null).result = .ok (t, id) ∧
        (t.view id).record =
          .list [.map [(.text "joinOperator", .text "or"), (.text "condition", .list [])]] := by
  intro data
  have hslot : Wire.Slot (.map [(.text "join_operator", .text "or"), (.text "note", .int 3),
      (.text "expression", .null), (.text "condition", .list [])])
      (Wire.slot .or "condition" (.list [])) :=
    .condition (by simp [Wire.joinIn, Join.name]) (.inr (by simp)) (by simp) .nil
  have hwhole : Wire.Whole data (.list [Wire.slot .or "condition" (.list [])]) :=
    ⟨_, _, rfl, rfl, .cons hslot .nil⟩
  have hdata : data.isJson = true := by rfl
  obtain ⟨haccept, -, hrecord⟩ := restore_exact_on_grammar empty .null hdata rfl
  obtain ⟨t, id, h⟩ := haccept.mpr ⟨_, hwhole⟩
  exact ⟨rfl, rfl, t, id, h, (hrecord t id _ h hwhole).1⟩

/-- A string is read as text, and so may be restored although it is no list. -/
theorem restore_text_of_list :
    (Value.text "[]").isJson = true ∧ (¬∃ record, Wire.Whole (.text "[]") record) ∧
      ∃ t id, (empty.restore (.text "[]") .none .null).result = .ok (t, id) := by
  refine ⟨rfl, ?_, ?_⟩
  · rintro ⟨record, xs, ys, h, -⟩
    cases h
  · have hdec : (decode (.text "[]") .null).result = .ok [] := by rfl
    obtain ⟨t, ht, -⟩ := restore_records (s := empty) hdec trivial
    exact ⟨t, _, ht⟩

end Store

end FilterTree
