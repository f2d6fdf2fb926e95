import FilterTree.Record
import FilterTree.Proofs.Outcome
import FilterTree.Proofs.Value.Shape
import FilterTree.Proofs.Restore.Replay

/-! The grammar of slot records, apart from the code that reads them, together with the canonical
form of what it accepts. Reading succeeds exactly on the grammar. -/

namespace FilterTree

/-! ### Parts of a reading -/

namespace Checked
variable {α β : Type}

theorem within_eq_ok_iff {step : PathStep} {x : Checked α} {a : α} :
    x.within step = .ok a ↔ x = .ok a := by
  cases x <;> simp [within, Except.mapError]

end Checked

theorem Join.ofName?_eq_some_iff {s : String} {j : Join} : ofName? s = some j ↔ s = j.name := by
  constructor
  · intro h
    unfold ofName? at h
    split at h
    · next hs =>
      cases h
      exact beq_iff_eq.mp hs
    · split at h
      · next hs =>
        cases h
        exact beq_iff_eq.mp hs
      · cases h
  · rintro rfl
    exact ofName?_name j

theorem Operator.name_of_ofName? {s : String} {o : Operator} (h : ofName? s = some o) :
    o.name = s := by
  simpa using List.find?_some h

theorem plain_coerceOperator_text (s : String) : (coerceOperator (.text s)).plain = s := by
  unfold coerceOperator
  cases h : (Value.text s).text?.bind Operator.ofName? with
  | none => rfl
  | some o => exact Operator.name_of_ofName? h

namespace Value

theorem asText_eq_ok_iff {v : Value} (hv : v.isJson = true) {s : String} :
    v.asText = .ok s ↔ v = .text s := by
  cases v <;> simp_all [isJson, asText, text?, Checked.fault]

theorem asJoin_eq_ok_iff {v : Value} (hv : v.isJson = true) {j : Join} :
    v.asJoin = .ok j ↔ v = .text j.name := by
  unfold asJoin
  cases hs : v.asText with
  | error faults =>
    refine iff_of_false (by simp [Except.toOption, Checked.fault]) ?_
    rintro rfl
    simp [asText, text?] at hs
  | ok s =>
    obtain rfl := (asText_eq_ok_iff hv).mp hs
    simp only [Except.toOption, Option.bind_some]
    cases hj : Join.ofName? s with
    | none =>
      refine iff_of_false (by simp [Checked.fault]) fun h => ?_
      injection h with h
      rw [Join.ofName?_eq_some_iff.mpr h] at hj
      cases hj
    | some k =>
      obtain rfl := Join.ofName?_eq_some_iff.mp hj
      simp only [Except.ok.injEq, text.injEq]
      -- names tell joins apart because they can be read back
      refine ⟨fun h => by rw [h], fun h => ?_⟩
      have hk := Join.ofName?_name k
      rw [h, Join.ofName?_name] at hk
      exact (Option.some.inj hk).symm

end Value

namespace Record
open Value (field?)

theorem required_eq_ok_iff {α : Type} {es : List (Value × Value)} {name : String}
    {read : Value → Checked α} {a : α} :
    required es name read = .ok a ↔ ∃ v, field? es name = some v ∧ read v = .ok a := by
  unfold required
  cases field? es name with
  | none => simp [Checked.within_eq_ok_iff, Checked.fault]
  | some v => simp [Checked.within_eq_ok_iff]

theorem nestedOf_eq (es : List (Value × Value)) :
    nestedOf es = match field? es "condition" with
      | none => .ok none
      | some v => ofSequence v := by
  induction es with
  | nil => rfl
  | cons e es ih =>
    obtain ⟨k, v⟩ := e
    rw [nestedOf]
    by_cases hk : k.same true (.text "condition") = true
    · simp [hk, field?, Value.lookup?]
    · rw [if_neg hk, ih]
      simp [field?, Value.lookup?, hk]

end Record

/-! ### The grammar -/

namespace Wire
open Value (field?)

def joinIn (es : List (Value × Value)) : Option Value :=
  (field? es "joinOperator").or (field? es "join_operator")

def Absent (part : Option Value) : Prop :=
  part = none ∨ part = some .null

def slot (j : Join) (name : String) (payload : Value) : Value :=
  .map [(.text "joinOperator", .text j.name), (.text name, payload)]

def leaf (key operator : String) (v : Value) : Value :=
  .map [(.text "key", .text key), (.text "operator", .text operator), (.text "value", v)]

mutual

/-- Data that spells one slot, with its canonical record. Entries of other names may stand
beside. -/
inductive Slot : Value → Value → Prop where
  | expression {es fs : List (Value × Value)} {j : Join} {key operator : String} {v : Value} :
      joinIn es = some (.text j.name) → field? es "expression" = some (.map fs) →
      field? fs "key" = some (.text key) → field? fs "operator" = some (.text operator) →
      field? fs "value" = some v → Absent (field? es "condition") →
      Slot (.map es) (slot j "expression" (leaf key operator v))
  | condition {es : List (Value × Value)} {j : Join} {xs ys : List Value} :
      joinIn es = some (.text j.name) → Absent (field? es "expression") →
      field? es "condition" = some (.list xs) → Slots xs ys →
      Slot (.map es) (slot j "condition" (.list ys))

inductive Slots : List Value → List Value → Prop where
  | nil : Slots [] []
  | cons {x y : Value} {xs ys : List Value} : Slot x y → Slots xs ys → Slots (x :: xs) (y :: ys)

end

/-- Data that spells a condition, with its canonical record. -/
def Whole (data record : Value) : Prop :=
  ∃ xs ys, data = .list xs ∧ record = .list ys ∧ Slots xs ys

end Wire

namespace Record
open Value (field?)
open Wire (joinIn Absent Slot Slots)

theorem joinOf_eq_ok_iff {es : List (Value × Value)} (hes : Value.entriesJson es = true)
    {j : Join} : joinOf es = .ok j ↔ joinIn es = some (.text j.name) := by
  have hread (name : String) : required es name Value.asJoin = .ok j ↔
      field? es name = some (.text j.name) := by
    rw [required_eq_ok_iff]
    constructor
    · rintro ⟨v, hv, hj⟩
      rw [hv, (Value.asJoin_eq_ok_iff (Value.isJson_of_field? hes hv)).mp hj]
    · exact fun h => ⟨_, h, (Value.asJoin_eq_ok_iff rfl).mpr rfl⟩
  unfold joinOf joinIn
  cases hfirst : field? es "joinOperator" with
  | some v => simpa [hfirst] using hread "joinOperator"
  | none =>
    cases hsecond : field? es "join_operator" with
    | none => simp [required_eq_ok_iff, hfirst]
    | some v =>
      have := Value.asJoin_eq_ok_iff (j := j) (Value.isJson_of_field? hes hsecond)
      simp [Checked.within_eq_ok_iff, this]

theorem expressionOf_eq_ok_iff {x : Value} (hx : x.isJson = true) {key operator : String}
    {v : Value} : expressionOf x = .ok (key, operator, v) ↔
      ∃ fs, x = .map fs ∧ field? fs "key" = some (.text key) ∧
        field? fs "operator" = some (.text operator) ∧ field? fs "value" = some v := by
  cases x with
  | map fs =>
    have hread (name s : String) : required fs name Value.asText = .ok s ↔
        field? fs name = some (.text s) := by
      rw [required_eq_ok_iff]
      constructor
      · rintro ⟨w, hw, hs⟩
        rw [hw, (Value.asText_eq_ok_iff (Value.isJson_of_field? hx hw)).mp hs]
      · exact fun h => ⟨_, h, (Value.asText_eq_ok_iff rfl).mpr rfl⟩
    simp only [expressionOf, Checked.both_eq_ok_iff, hread, required_eq_ok_iff, Except.ok.injEq,
      exists_eq_right, Value.map.injEq, exists_eq_left']
  | _ => simp_all [Value.isJson, expressionOf, Checked.fault]

theorem optional_eq_none_iff {α : Type} {es : List (Value × Value)} {name : String}
    {read : Value → Checked α} : optional es name read = .ok none ↔ Absent (field? es name) := by
  unfold optional Absent
  split
  · next h => simp [h]
  · next h => simp [h]
  · next v hv h =>
    have hne : v ≠ .null := fun hn => hv hn
    simp [h, hne, except_map_eq_ok_iff]

theorem optional_eq_some_iff {α : Type} {es : List (Value × Value)} {name : String}
    {read : Value → Checked α} (hnull : ∀ a, read .null ≠ .ok a) {a : α} :
    optional es name read = .ok (some a) ↔ ∃ v, field? es name = some v ∧ read v = .ok a := by
  unfold optional
  split
  · next h => simp [h]
  · next h => simp [h, hnull]
  · next v _ h => simp [h, except_map_eq_ok_iff, Checked.within_eq_ok_iff]

theorem assemble_eq_ok_iff {j : Join} {single : Option (String × String × Value)}
    {nested : Option (List Record)} {r : Record} :
    assemble j single nested = .ok r ↔
      (∃ key operator v, single = some (key, operator, v) ∧ nested = none ∧
        r = .expression j key operator v) ∨
      ∃ records, single = none ∧ nested = some records ∧ r = .condition j records := by
  rcases single with _ | ⟨key, operator, v⟩ <;> rcases nested with _ | records <;>
    simp [assemble, Checked.fault, eq_comm]

theorem ofValue_map_eq_ok_iff {es : List (Value × Value)} {r : Record} :
    ofValue (.map es) = .ok r ↔ ∃ j single nested, joinOf es = .ok j ∧
      optional es "expression" expressionOf = .ok single ∧ nestedOf es = .ok nested ∧
      assemble j single nested = .ok r := by
  rw [ofValue, except_bind_eq_ok_iff]
  constructor
  · rintro ⟨⟨⟨j, single⟩, nested⟩, hboth, hr⟩
    rw [Checked.both_eq_ok_iff, Checked.both_eq_ok_iff, Checked.within_eq_ok_iff] at hboth
    exact ⟨j, single, nested, hboth.1.1, hboth.1.2, hboth.2, hr⟩
  · rintro ⟨j, single, nested, hj, hsingle, hnested, hr⟩
    refine ⟨((j, single), nested), ?_, hr⟩
    rw [Checked.both_eq_ok_iff, Checked.both_eq_ok_iff, Checked.within_eq_ok_iff]
    exact ⟨⟨hj, hsingle⟩, hnested⟩

theorem nestedOf_eq_none_iff {es : List (Value × Value)} :
    nestedOf es = .ok none ↔ Absent (field? es "condition") := by
  rw [nestedOf_eq, Absent]
  cases field? es "condition" with
  | none => simp
  | some v => cases v <;> simp [ofSequence, except_map_eq_ok_iff, Checked.fault]

theorem ofSequence_eq_some_iff {v : Value} (hv : v.isJson = true) {records : List Record} :
    ofSequence v = .ok (some records) ↔ ∃ xs, v = .list xs ∧ ofItems 0 xs = .ok records := by
  cases v <;> simp_all [Value.isJson, ofSequence, except_map_eq_ok_iff, Checked.fault]

theorem ofItems_cons_eq_ok_iff {i : Nat} {x : Value} {xs : List Value} {records : List Record} :
    ofItems i (x :: xs) = .ok records ↔
      ∃ r rest, ofValue x = .ok r ∧ ofItems (i + 1) xs = .ok rest ∧ records = r :: rest := by
  rw [ofItems, except_map_eq_ok_iff]
  constructor
  · rintro ⟨⟨r, rest⟩, hboth, rfl⟩
    rw [Checked.both_eq_ok_iff, Checked.within_eq_ok_iff] at hboth
    exact ⟨r, rest, hboth.1, hboth.2, rfl⟩
  · rintro ⟨r, rest, hr, hrest, rfl⟩
    refine ⟨(r, rest), ?_, rfl⟩
    rw [Checked.both_eq_ok_iff, Checked.within_eq_ok_iff]
    exact ⟨hr, hrest⟩

end Record

end FilterTree
