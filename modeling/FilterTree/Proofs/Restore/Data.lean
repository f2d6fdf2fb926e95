import FilterTree.Proofs.Json.Data
import FilterTree.Proofs.Restore.Layers
import FilterTree.Proofs.Yaml.Data

/-! What a condition holds that has been restored from text. Its record is that of records whose values
are in normal form, and these are such as reading gives. -/

namespace FilterTree

namespace Record
open Value (IsDatum AreData EntriesData field?)

mutual

def IsData : Record → Prop
  | .expression _ _ _ v => v.IsDatum
  | .condition _ records => AllData records

def AllData : List Record → Prop
  | [] => True
  | r :: rest => IsData r ∧ AllData rest

end

mutual

def IsStored : Record → Prop
  | .expression _ _ _ v => v.IsStored
  | .condition _ records => AllStored records

def AllStored : List Record → Prop
  | [] => True
  | r :: rest => IsStored r ∧ AllStored rest

end

mutual

def normal : Record → Record
  | .expression j key operator v => .expression j key operator v.normal
  | .condition j records => .condition j (normalAll records)

def normalAll : List Record → List Record
  | [] => []
  | r :: rest => normal r :: normalAll rest

end

/-! ### Reading records from data -/

theorem isDatum_of_expressionOf {x : Value} {key operator : String} {v : Value}
    (h : expressionOf x = .ok (key, operator, v)) (hx : x.IsDatum) : v.IsDatum := by
  have hentries {es : List (Value × Value)} (hes : EntriesData es)
      (h : Checked.both (required es "key" Value.asText)
        (Checked.both (required es "operator" Value.asText) (required es "value" .ok)) =
          .ok (key, operator, v)) : v.IsDatum := by
    obtain ⟨-, hmore⟩ := Checked.both_eq_ok_iff.mp h
    obtain ⟨-, hvalue⟩ := Checked.both_eq_ok_iff.mp hmore
    obtain ⟨w, hw, heq⟩ := required_eq_ok_iff.mp hvalue
    cases heq
    exact IsDatum.of_field? hes hw
  unfold expressionOf at h
  split at h
  · exact hentries hx h
  · exact hentries hx h
  · cases h

mutual

theorem isData_of_ofValue : ∀ {r : Record} {x : Value}, ofValue x = .ok r → x.IsDatum → r.IsData
  | r, .map es, h, hx => by
    obtain ⟨j, single, nested, -, hsingle, hnested, hr⟩ := ofValue_map_eq_ok_iff.mp h
    rcases assemble_eq_ok_iff.mp hr with
      ⟨key, operator, v, rfl, rfl, rfl⟩ | ⟨records, rfl, rfl, rfl⟩
    · obtain ⟨w, hw, hread⟩ := (optional_eq_some_iff fun a ha => by cases ha).mp hsingle
      exact isDatum_of_expressionOf hread (IsDatum.of_field? hx hw)
    · exact allData_of_nestedOf hnested hx
  | _, .loop w, h, _ => by
    cases w <;> cases h

theorem allData_of_nestedOf : ∀ {records : List Record} {es : List (Value × Value)},
    nestedOf es = .ok (some records) → EntriesData es → AllData records
  | _, (k, v) :: es, h, ⟨_, hv, hes⟩ => by
    rw [nestedOf] at h
    split at h
    · exact allData_of_ofSequence h hv
    · exact allData_of_nestedOf h hes

theorem allData_of_ofSequence : ∀ {records : List Record} {v : Value},
    ofSequence v = .ok (some records) → v.IsDatum → AllData records
  | _, .list xs, h, hx | _, .tuple xs, h, hx => by
    obtain ⟨_, hall, hsome⟩ := except_map_eq_ok_iff.mp h
    cases hsome
    exact allData_of_ofItems hall hx
  | _, .set xs, h, hx => by
    obtain ⟨_, hall, hsome⟩ := except_map_eq_ok_iff.mp h
    cases hsome
    exact allData_of_ofItems hall (Value.areData_iff.mpr fun x hmem => (hx x hmem).isDatum)
  | _, .frozenset _, _, hx => absurd hx id

theorem allData_of_ofItems : ∀ {records : List Record} {xs : List Value} {i : Nat},
    ofItems i xs = .ok records → AreData xs → AllData records
  | _, [], _, h, _ => by
    cases h
    trivial
  | _, x :: xs, _, h, ⟨hx, hxs⟩ => by
    obtain ⟨r, rest, hr, hrest, rfl⟩ := ofItems_cons_eq_ok_iff.mp h
    exact ⟨isData_of_ofValue hr hx, allData_of_ofItems hrest hxs⟩

end

/-! ### Records of trees -/

mutual

theorem isStored_normal : ∀ r : Record, r.IsData → r.Storable → r.normal.IsStored
  | .expression _ _ _ v, h, hr => Value.isStored_normal v h hr.1
  | .condition _ records, h, hr => allStored_normalAll records h hr

theorem allStored_normalAll : ∀ records : List Record, AllData records → AllStorable records →
    AllStored (normalAll records)
  | [], _, _ => trivial
  | r :: rest, h, hr => ⟨isStored_normal r h.1 hr.1, allStored_normalAll rest h.2 hr.2⟩

end

mutual

theorem record_tree_normal {hooks : Hooks} : ∀ r : Record,
    Wire.slot r.join (r.tree hooks).fieldName (r.tree hooks).record = r.normal.wire
  | .expression j key operator v => by
    simp only [tree, Tree.record, Tree.fieldName, Context.toMap, Operand.asValue, Operand.plain,
      plain_coerceOperator_text]
    rfl
  | .condition j records => by
    simp only [tree, Tree.record, Tree.fieldName, recordOfSlots_trees_normal records]
    rfl

theorem recordOfSlots_trees_normal {hooks : Hooks} : ∀ records : List Record,
    Tree.recordOfSlots (trees hooks records) = wireAll (normalAll records)
  | [] => rfl
  | r :: rest => by
    rw [trees, Tree.recordOfSlots, recordOfSlots_trees_normal rest, normalAll, wireAll,
      ← record_tree_normal r]
    rfl

end

end Record

/-! ### Text -/

namespace Store
open Record

end Store

end FilterTree
