import FilterTree.Encoding
import FilterTree.Proofs.Restore.Grammar

/-! The grammar of slot records for data of any kind. Names may be bytes, sequences may be of other
types than lists, and the value of an expression may be anything. -/

namespace FilterTree

theorem Value.asJoin_eq_ok_iff_asText {v : Value} {j : Join} :
    v.asJoin = .ok j ↔ v.asText = .ok j.name := by
  unfold asJoin
  cases hs : v.asText with
  | error faults => simp [Except.toOption, Checked.fault]
  | ok s =>
    simp only [Except.toOption, Option.bind_some]
    cases hj : Join.ofName? s with
    | none =>
      refine iff_of_false (by simp [Checked.fault]) fun h => ?_
      rw [Join.ofName?_eq_some_iff.mpr (Except.ok.inj h)] at hj
      cases hj
    | some k =>
      have hk : s = k.name := Join.ofName?_eq_some_iff.mp hj
      refine ⟨fun h => by rw [hk, Except.ok.inj h], fun h => ?_⟩
      rw [Join.ofName?_eq_some_iff.mpr (Except.ok.inj h)] at hj
      rw [Option.some.inj hj]

/-! ### The grammar -/

namespace Wire
open Value (field?)

def members? : Value → Option (List Value)
  | .list xs | .tuple xs | .set xs | .frozenset xs => some xs
  | _ => none

def entries? : Value → Option (List (Value × Value))
  | .map es | .loop (.map es) => some es
  | _ => none

def Named (part : Option Value) (s : String) : Prop :=
  ∃ v, part = some v ∧ v.asText = .ok s

mutual

/-- Data that spells one slot. Entries of other names may stand beside. -/
inductive Spells : Value → Record → Prop where
  | expression {es fs : List (Value × Value)} {part v : Value} {j : Join} {key operator : String} :
      Named (joinIn es) j.name → field? es "expression" = some part → entries? part = some fs →
      Named (field? fs "key") key → Named (field? fs "operator") operator →
      field? fs "value" = some v → Absent (field? es "condition") →
      Spells (.map es) (.expression j key operator v)
  | condition {es : List (Value × Value)} {part : Value} {j : Join} {xs : List Value}
      {records : List Record} :
      Named (joinIn es) j.name → Absent (field? es "expression") →
      field? es "condition" = some part → members? part = some xs → SpellsAll xs records →
      Spells (.map es) (.condition j records)

inductive SpellsAll : List Value → List Record → Prop where
  | nil : SpellsAll [] []
  | cons {x : Value} {r : Record} {xs : List Value} {records : List Record} :
      Spells x r → SpellsAll xs records → SpellsAll (x :: xs) (r :: records)

end

end Wire

/-! ### Reading is the grammar -/

namespace Record
open Value (field?)
open Wire (joinIn Absent Named entries? members? Spells SpellsAll)

theorem joinOf_eq_ok_iff_named {es : List (Value × Value)} {j : Join} :
    joinOf es = .ok j ↔ Named (joinIn es) j.name := by
  unfold joinOf joinIn Named
  cases hfirst : field? es "joinOperator" with
  | some v => simp [required_eq_ok_iff, hfirst, Value.asJoin_eq_ok_iff_asText]
  | none =>
    cases hsecond : field? es "join_operator" with
    | none => simp [required_eq_ok_iff, hfirst]
    | some v => simp [Checked.within_eq_ok_iff, Value.asJoin_eq_ok_iff_asText]

theorem expressionOf_eq_ok_iff_named {x : Value} {key operator : String} {v : Value} :
    expressionOf x = .ok (key, operator, v) ↔ ∃ fs, entries? x = some fs ∧
      Named (field? fs "key") key ∧ Named (field? fs "operator") operator ∧
        field? fs "value" = some v := by
  unfold expressionOf entries?
  split <;> simp [Checked.both_eq_ok_iff, required_eq_ok_iff, Named, Checked.fault]

theorem ofSequence_eq_some_iff_members {v : Value} {records : List Record} :
    ofSequence v = .ok (some records) ↔
      ∃ xs, members? v = some xs ∧ ofItems 0 xs = .ok records := by
  cases v <;> simp [ofSequence, members?, except_map_eq_ok_iff, Checked.fault]

mutual

theorem ofValue_of_spells : ∀ {x : Value} {r : Record}, Spells x r → ofValue x = .ok r
  | _, _, @Spells.expression es fs part v j key operator hj hexp hfs hkey hop hval habs => by
    have hread := expressionOf_eq_ok_iff_named.mpr ⟨fs, hfs, hkey, hop, hval⟩
    refine ofValue_map_eq_ok_iff.mpr ⟨j, some (key, operator, v), none,
      joinOf_eq_ok_iff_named.mpr hj, ?_, nestedOf_eq_none_iff.mpr habs, rfl⟩
    refine (optional_eq_some_iff fun a ha => ?_).mpr ⟨_, hexp, hread⟩
    cases ha
  | _, _, @Spells.condition es part j xs records hj habs hcond hxs hall => by
    refine ofValue_map_eq_ok_iff.mpr ⟨j, none, some records, joinOf_eq_ok_iff_named.mpr hj,
      optional_eq_none_iff.mpr habs, ?_, rfl⟩
    rw [nestedOf_eq, hcond]
    exact ofSequence_eq_some_iff_members.mpr ⟨xs, hxs, ofItems_of_spellsAll hall 0⟩

theorem ofItems_of_spellsAll : ∀ {xs : List Value} {records : List Record},
    SpellsAll xs records → ∀ i, ofItems i xs = .ok records
  | _, _, .nil, _ => rfl
  | _, _, .cons hx hxs, i =>
    ofItems_cons_eq_ok_iff.mpr ⟨_, _, ofValue_of_spells hx, ofItems_of_spellsAll hxs (i + 1), rfl⟩

end

mutual

theorem spells_of_ofValue : ∀ {r : Record} {x : Value}, ofValue x = .ok r → Spells x r
  | r, .map es, h => by
    obtain ⟨j, single, nested, hj, hsingle, hnested, hr⟩ := ofValue_map_eq_ok_iff.mp h
    rw [joinOf_eq_ok_iff_named] at hj
    rcases assemble_eq_ok_iff.mp hr with
      ⟨key, operator, v, rfl, rfl, rfl⟩ | ⟨records, rfl, rfl, rfl⟩
    · obtain ⟨w, hw, hread⟩ := (optional_eq_some_iff fun a ha => by cases ha).mp hsingle
      obtain ⟨fs, hfs, hkey, hop, hval⟩ := expressionOf_eq_ok_iff_named.mp hread
      exact .expression hj hw hfs hkey hop hval (nestedOf_eq_none_iff.mp hnested)
    · obtain ⟨part, xs, hpart, hxs, hall⟩ := spellsAll_of_nestedOf hnested
      exact .condition hj (optional_eq_none_iff.mp hsingle) hpart hxs hall
  | _, .loop x, h => by cases x <;> cases h

theorem spellsAll_of_nestedOf : ∀ {records : List Record} {es : List (Value × Value)},
    nestedOf es = .ok (some records) →
    ∃ part xs, field? es "condition" = some part ∧ members? part = some xs ∧ SpellsAll xs records
  | _, (k, v) :: es, h => by
    rw [nestedOf] at h
    by_cases hk : k.same true (.text "condition") = true
    · rw [if_pos hk] at h
      obtain ⟨xs, hxs, hall⟩ := spellsAll_of_ofSequence h
      exact ⟨v, xs, by simp [field?, Value.lookup?, hk], hxs, hall⟩
    · rw [if_neg hk] at h
      obtain ⟨part, xs, hpart, hxs⟩ := spellsAll_of_nestedOf h
      exact ⟨part, xs, by simpa [field?, Value.lookup?, hk] using hpart, hxs⟩

theorem spellsAll_of_ofSequence : ∀ {records : List Record} {v : Value},
    ofSequence v = .ok (some records) → ∃ xs, members? v = some xs ∧ SpellsAll xs records
  | records, .list xs, h | records, .tuple xs, h | records, .set xs, h
  | records, .frozenset xs, h => by
    obtain ⟨_, hall, hsome⟩ := except_map_eq_ok_iff.mp h
    cases hsome
    exact ⟨xs, rfl, spellsAll_of_ofItems hall⟩

theorem spellsAll_of_ofItems : ∀ {records : List Record} {xs : List Value} {i : Nat},
    ofItems i xs = .ok records → SpellsAll xs records
  | _, [], _, h => by
    cases h
    exact .nil
  | _, x :: xs, _, h => by
    obtain ⟨r, rest, hr, hrest, rfl⟩ := ofItems_cons_eq_ok_iff.mp h
    exact .cons (spells_of_ofValue hr) (spellsAll_of_ofItems hrest)

end

end Record

/-! ### Decoding -/

section
variable {encoded format data : Value} {xs : List Value}

theorem decode_of_spellsAll (hdata : (loadEncoded encoded format).result = .ok data)
    (hxs : data.sequence? = some xs) {records : List Record} (h : Wire.SpellsAll xs records) :
    (decode encoded format).result = .ok records := by
  unfold decode
  rw [Outcome.result_bind_of_ok _ hdata, hxs]
  simp only
  rw [Record.ofItems_of_spellsAll h 0]
  rfl

theorem decode_of_not_spellsAll (hdata : (loadEncoded encoded format).result = .ok data)
    (hxs : data.sequence? = some xs) (h : ¬∃ records, Wire.SpellsAll xs records) :
    ∃ e, (decode encoded format).result = .error e ∧ e.kind = .malformed := by
  unfold decode
  rw [Outcome.result_bind_of_ok _ hdata, hxs]
  simp only
  cases hitems : Record.ofItems 0 xs with
  | ok records => exact absurd ⟨records, Record.spellsAll_of_ofItems hitems⟩ h
  | error faults => exact ⟨_, rfl, rfl⟩

end

end FilterTree
