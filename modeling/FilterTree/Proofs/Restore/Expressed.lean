import FilterTree.Proofs.Json.Expressed
import FilterTree.Proofs.Restore.Data

/-! Stored records as JSON text. The text spells records again, since the names that their fields have
are strings; the values in them may come back otherwise than they were. -/

namespace FilterTree

namespace Json
open Value (mapOf insertEntry same_text)

theorem mapOf_pair {name other : String} (h : name ≠ other) (v w : Value) :
    mapOf [(.text name, v), (.text other, w)] = .map [(.text name, v), (.text other, w)] := by
  simp [mapOf, insertEntry, same_text, h]

theorem mapOf_leaf (u v w : Value) :
    mapOf [(.text "key", u), (.text "operator", v), (.text "value", w)] =
      .map [(.text "key", u), (.text "operator", v), (.text "value", w)] := by
  simp [mapOf, insertEntry, same_text]

theorem exists_writeEntries_cons {name : String} {v : Value} {es : List (Value × Value)}
    {ts : List String} (h : writeEntries ((.text name, v) :: es) = .ok ts) :
    ∃ t more, write v = .ok t ∧ writeEntries es = .ok more ∧
      ts = (writeString name ++ ":" ++ t) :: more := by
  obtain ⟨key, hkey, h⟩ := except_bind_eq_ok_iff.mp h
  obtain ⟨t, ht, h⟩ := except_bind_eq_ok_iff.mp h
  obtain ⟨more, hmore, h⟩ := except_bind_eq_ok_iff.mp h
  cases hkey
  cases h
  exact ⟨t, more, ht, hmore, rfl⟩

theorem spellsEntry_text (name : String) {t : String} {v : Value} (h : Spells t.toList v) :
    SpellsEntry (writeString name ++ ":" ++ t).toList (.text name, v) :=
  ⟨name, t.toList, rfl, by simp, h⟩

theorem spells_slot {j : Join} {name : String} (hname : name ≠ "joinOperator") {payload : Value}
    {t : String} (h : write (Wire.slot j name payload) = .ok t) : ∃ u, write payload = .ok u ∧
      ∀ w, Spells u.toList w → Spells t.toList (Wire.slot j name w) := by
  unfold Wire.slot at h ⊢
  rw [write] at h
  obtain ⟨ts, hts, h⟩ := except_bind_eq_ok_iff.mp h
  cases h
  obtain ⟨v, more, hv, hmore, rfl⟩ := exists_writeEntries_cons hts
  obtain ⟨u, rest, hu, hrest, rfl⟩ := exists_writeEntries_cons hmore
  cases hv
  cases hrest
  refine ⟨u, hu, fun w hw => ?_⟩
  rw [← mapOf_pair hname.symm]
  exact spells_mapOf (.cons (spellsEntry_text _ (spells_writeString _))
    (.cons (spellsEntry_text name hw) .nil))

theorem spells_leaf {key operator : String} {v : Value} {t : String}
    (h : write (Wire.leaf key operator v) = .ok t) : ∃ u, write v = .ok u ∧
      ∀ w, Spells u.toList w → Spells t.toList (Wire.leaf key operator w) := by
  unfold Wire.leaf at h ⊢
  rw [write] at h
  obtain ⟨ts, hts, h⟩ := except_bind_eq_ok_iff.mp h
  cases h
  obtain ⟨x, more, hx, hmore, rfl⟩ := exists_writeEntries_cons hts
  obtain ⟨y, rest, hy, hrest, rfl⟩ := exists_writeEntries_cons hmore
  obtain ⟨u, last, hu, hlast, rfl⟩ := exists_writeEntries_cons hrest
  cases hx
  cases hy
  cases hlast
  refine ⟨u, hu, fun w hw => ?_⟩
  rw [← mapOf_leaf]
  exact spells_mapOf (.cons (spellsEntry_text _ (spells_writeString _))
    (.cons (spellsEntry_text _ (spells_writeString _)) (.cons (spellsEntry_text _ hw) .nil)))

theorem Spells.read_line {t : String} {v : Value} (h : Spells t.toList v) :
    Json.read (t ++ "\n") = .ok v := by
  obtain ⟨c, tail, hc, hopens⟩ := h.opens
  have htext : (t ++ "\n").toList = t.toList ++ ['\n'] := by simp
  have hreads := h.reads (2 * (t.toList ++ ['\n']).length + 2) ['\n']
    (by rw [List.length_append]; omega) (.cons (by decide) [])
  have hskip : skipBlanks (t.toList ++ ['\n']) = t.toList ++ ['\n'] := by
    rw [hc, List.cons_append, skipBlanks_of_opens hopens]
  unfold Json.read readChars
  rw [htext]
  split
  · next heq =>
    rw [hc, List.cons_append] at heq
    exact absurd (List.cons.inj heq).1 hopens.2.2.2
  · rw [hskip, hreads]
    rfl

end Json

namespace Record
open Json

mutual

theorem exists_spells_wire : ∀ r : Record, r.IsStored → ∀ {t : String}, write r.wire = .ok t →
    ∃ s : Record, Spells t.toList s.wire ∧ s.IsJson
  | .expression j key operator v, hv => fun h => by
    rw [wire] at h
    obtain ⟨u, hu, hslot⟩ := spells_slot (by decide) h
    obtain ⟨x, hx, hleaf⟩ := spells_leaf hu
    obtain ⟨w, hw, hjson⟩ := exists_spells v hv hx
    exact ⟨.expression j key operator w, hslot _ (hleaf w hw), hjson⟩
  | .condition j records, hr => fun h => by
    rw [wire] at h
    obtain ⟨u, hu, hslot⟩ := spells_slot (by decide) h
    rw [write] at hu
    obtain ⟨ts, hts, hu⟩ := except_bind_eq_ok_iff.mp hu
    cases hu
    obtain ⟨rest, hrest, hjson⟩ := exists_spells_wireAll records hr hts
    exact ⟨.condition j rest, hslot _ (spells_list hrest), hjson⟩

theorem exists_spells_wireAll : ∀ records : List Record, AllStored records → ∀ {ts : List String},
    writeAll (wireAll records) = .ok ts →
    ∃ rest : List Record, List.Forall₂ (fun t v => Spells t.toList v) ts (wireAll rest) ∧
      AreJson rest
  | [], _ => by
    rintro ⟨⟩
    exact ⟨[], .nil, trivial⟩
  | r :: records, ⟨hr, hrecords⟩ => fun h => by
    rw [wireAll] at h
    obtain ⟨t, ht, h⟩ := except_bind_eq_ok_iff.mp h
    obtain ⟨ts, hts, h⟩ := except_bind_eq_ok_iff.mp h
    cases h
    obtain ⟨s, hs, hsj⟩ := exists_spells_wire r hr ht
    obtain ⟨rest, hrest, hrestj⟩ := exists_spells_wireAll records hrecords hts
    exact ⟨s :: rest, .cons hs hrest, hsj, hrestj⟩

end

end Record

namespace Store
open Record

end Store

end FilterTree
