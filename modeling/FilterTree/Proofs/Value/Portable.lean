import FilterTree.Proofs.Value.Shape
import FilterTree.Proofs.Number.Text

/-! Values that survive being written and read. Sets and tuples do so in normal form, as lists. -/

namespace FilterTree.Value

mutual

/-- Null, booleans, strings, integers that can be written, doubles, and collections of these. The
keys of a mapping are strings, no two of them equal. -/
def Portable : Value → Prop
  | .null | .bool _ | .text _ => True
  | .int n => (Value.int n).isLegible = true
  | .float x => x.IsCanonical
  | .list xs | .tuple xs | .set xs | .frozenset xs => AllPortable xs
  | .map es => EntriesPortable es
  | _ => False

def AllPortable : List Value → Prop
  | [] => True
  | x :: xs => Portable x ∧ AllPortable xs

def EntriesPortable : List (Value × Value) → Prop
  | [] => True
  | (k, v) :: es => k.isText = true ∧ (∀ e ∈ es, e.1 ≠ k) ∧ Portable v ∧ EntriesPortable es

end

theorem allPortable_iff {xs : List Value} : AllPortable xs ↔ ∀ x ∈ xs, x.Portable := by
  induction xs with
  | nil => simp [AllPortable]
  | cons x xs ih => simp [AllPortable, ih]

theorem isText_of_mem {es : List (Value × Value)} (hes : EntriesPortable es) {e : Value × Value}
    (he : e ∈ es) : e.1.isText = true := by
  induction es with
  | nil => cases he
  | cons d es ih =>
    rcases List.mem_cons.mp he with rfl | he
    · exact hes.1
    · exact ih hes.2.2.2 he

theorem mem_of_mem_sortKeyed {α : Type} {items : List (String × α)} {x : α}
    (h : x ∈ sortKeyed items) : ∃ key, (key, x) ∈ items := by
  obtain ⟨⟨key, y⟩, hy, rfl⟩ := List.mem_map.mp h
  exact ⟨key, (List.mergeSort_perm _ _).mem_iff.mp hy⟩

theorem map_fst_normalEntries (es : List (Value × Value)) :
    (normalEntries es).map (·.1) = es.map (·.1) := by
  induction es with
  | nil => rfl
  | cons e es ih => rw [normalEntries, List.map_cons, List.map_cons, ih]

mutual

/-- The normal form of a portable value is portable, and has the shape that JSON has. -/
theorem normal_of_portable : ∀ v : Value, v.Portable →
    v.normal.Portable ∧ v.normal.isJson = true
  | .null, _ | .bool _, _ | .text _, _ => ⟨trivial, rfl⟩
  | .int _, h | .float _, h => ⟨h, rfl⟩
  | .list xs, h | .tuple xs, h => normalAll_of_portable xs h
  | .set xs, h | .frozenset xs, h => by
    have hall : ∀ x ∈ sortKeyed (normalKeyed xs), x.Portable ∧ x.isJson = true := by
      intro x hx
      obtain ⟨key, hkey⟩ := mem_of_mem_sortKeyed hx
      exact normalKeyed_of_portable xs h (key, x) hkey
    exact ⟨allPortable_iff.mpr fun x hx => (hall x hx).1, areJson_iff.mpr fun x hx => (hall x hx).2⟩
  | .map es, h => normalEntries_of_portable es h

theorem normalAll_of_portable : ∀ xs : List Value, AllPortable xs →
    AllPortable (normalAll xs) ∧ areJson (normalAll xs) = true
  | [], _ => ⟨trivial, rfl⟩
  | x :: xs, h => by
    obtain ⟨hx, hxj⟩ := normal_of_portable x h.1
    obtain ⟨hxs, hxsj⟩ := normalAll_of_portable xs h.2
    exact ⟨⟨hx, hxs⟩, Bool.and_eq_true_iff.mpr ⟨hxj, hxsj⟩⟩

theorem normalKeyed_of_portable : ∀ xs : List Value, AllPortable xs →
    ∀ p ∈ normalKeyed xs, p.2.Portable ∧ p.2.isJson = true
  | x :: xs, h, p, hp => by
    rcases List.mem_cons.mp hp with rfl | hp
    · exact normal_of_portable x h.1
    · exact normalKeyed_of_portable xs h.2 p hp

theorem normalEntries_of_portable : ∀ es : List (Value × Value), EntriesPortable es →
    EntriesPortable (normalEntries es) ∧ entriesJson (normalEntries es) = true
  | [], _ => ⟨trivial, rfl⟩
  | (k, v) :: es, ⟨hk, hdistinct, hv, hes⟩ => by
    obtain ⟨hvp, hvj⟩ := normal_of_portable v hv
    obtain ⟨hesp, hesj⟩ := normalEntries_of_portable es hes
    refine ⟨⟨hk, fun e he heq => ?_, hvp, hesp⟩, ?_⟩
    · have hmem : e.1 ∈ es.map (·.1) := by
        rw [← map_fst_normalEntries es]
        exact List.mem_map_of_mem he
      obtain ⟨e', he', hfst⟩ := List.mem_map.mp hmem
      exact hdistinct e' he' (hfst.trans heq)
    · rw [normalEntries, entriesJson, hk, hvj, hesj]
      rfl

end

end FilterTree.Value
