import FilterTree.Proofs.Json.RoundTrip
import FilterTree.Proofs.Outcome
import FilterTree.Proofs.Value.Stored

/-! Which values have a JSON text. Every such text reads back, though not always as the value that it
was written for: a key that is no string comes back as its name, and of equal names one stays. -/

namespace FilterTree

namespace Value

def isNameable : Value → Bool
  | .null | .bool _ | .float _ | .nan _ | .text _ | .operator _ | .join _ => true
  | .int n => (Value.int n).isLegible
  | _ => false

mutual

def isExpressible : Value → Bool
  | .null | .bool _ | .float _ | .nan _ | .text _ | .operator _ | .join _ => true
  | .int n => (Value.int n).isLegible
  | .list xs | .tuple xs => areExpressible xs
  | .map es => entriesExpressible es
  | _ => false

def areExpressible : List Value → Bool
  | [] => true
  | x :: xs => isExpressible x && areExpressible xs

def entriesExpressible : List (Value × Value) → Bool
  | [] => true
  | (k, v) :: es => isNameable k && isExpressible v && entriesExpressible es

end

end Value

namespace Json
open Value

theorem exactIf_writeInt (n : Int) : ExactIf (Value.int n).isLegible (writeInt n) := by
  unfold writeInt
  generalize (Value.int n).isLegible = b
  cases b with
  | true => exact .ok _
  | false => exact .error rfl

theorem exactIf_keyText : ∀ k : Value, ExactIf k.isNameable (keyText k)
  | .int n => by
    rw [isNameable, keyText]
    exact exactIf_writeInt n
  | .null | .bool _ | .float _ | .nan _ | .text _ | .operator _ | .join _ => .ok _
  | .bytes _ | .buffer _ | .date _ _ | .moment _ _ | .list _ | .tuple _ | .set _ | .frozenset _
  | .map _ | .loop _ | .foreign _ _ => .error rfl

mutual

theorem exactIf_write : ∀ v : Value, ExactIf v.isExpressible (write v)
  | .int n => by
    rw [isExpressible, write]
    exact exactIf_writeInt n
  | .list xs | .tuple xs => by
    rw [write, isExpressible]
    exact (exactIf_writeAll xs).map _
  | .map es => by
    rw [write, isExpressible]
    exact (exactIf_writeEntries es).map _
  | .null | .bool _ | .float _ | .nan _ | .text _ | .operator _ | .join _ => .ok _
  | .bytes _ | .buffer _ | .date _ _ | .moment _ _ | .set _ | .frozenset _ | .loop _
  | .foreign _ _ => .error rfl

theorem exactIf_writeAll : ∀ xs : List Value, ExactIf (areExpressible xs) (writeAll xs)
  | [] => .ok _
  | x :: xs => by
    rw [writeAll, areExpressible]
    exact (exactIf_write x).bind fun t => (exactIf_writeAll xs).map (t :: ·)

theorem exactIf_writeEntries : ∀ es : List (Value × Value),
    ExactIf (entriesExpressible es) (writeEntries es)
  | [] => .ok _
  | (k, v) :: es => by
    rw [writeEntries, entriesExpressible, Bool.and_assoc]
    exact (exactIf_keyText k).bind fun key => (exactIf_write v).bind fun t =>
      (exactIf_writeEntries es).map _

end

/-! ### What the texts read as -/

theorem isLegible_of_write {n : Int} {t : String} (h : write (.int n) = .ok t) :
    (Value.int n).isLegible = true := by
  have hexact := exactIf_write (.int n)
  rw [h] at hexact
  exact hexact.eq_true

theorem exists_spells_of_portable (v : Value) {t : String} (hj : v.isJson = true) (hp : v.Portable)
    (h : write v = .ok t) : ∃ w, Spells t.toList w ∧ w.isJson = true := by
  obtain ⟨t', ht', hspells⟩ := spells_write v hj hp
  cases h.symm.trans ht'
  exact ⟨v, hspells, hj⟩

theorem spells_nan : Spells "NaN".toList (.nan .json) :=
  .of_scalar (c := 'N') rfl (by decide) (by decide) (by decide) (by decide) fun _ _ => rfl

theorem isJson_mapOf {es : List (Value × Value)} (h : entriesJson es = true) :
    (mapOf es).isJson = true := by
  obtain ⟨fs, hmap, hfs⟩ := exists_mapOf (p := fun k => k.isText = true)
    (q := fun v => v.isJson = true) (entriesJson_iff.mp h)
  rw [hmap]
  exact entriesJson_iff.mpr hfs

mutual

/-- What is written of stored data is read as data of the shape that JSON has. -/
theorem exists_spells : ∀ (v : Value), v.IsStored → ∀ {t : String}, write v = .ok t →
    ∃ w, Spells t.toList w ∧ w.isJson = true
  | .null, _ => exists_spells_of_portable .null rfl trivial
  | .bool b, _ => exists_spells_of_portable (.bool b) rfl trivial
  | .text s, _ => exists_spells_of_portable (.text s) rfl trivial
  | .int n, _ => fun h => exists_spells_of_portable (.int n) rfl (isLegible_of_write h) h
  | .float x, hx => exists_spells_of_portable (.float x) rfl hx
  | .nan _, _ => by
    rintro ⟨⟩
    exact ⟨.nan .json, spells_nan, rfl⟩
  | .list xs, hxs => fun h => by
    rw [write] at h
    obtain ⟨ts, hts, h⟩ := except_bind_eq_ok_iff.mp h
    cases h
    obtain ⟨ws, hws, hj⟩ := exists_spellsAll xs hxs hts
    exact ⟨.list ws, spells_list hws, hj⟩
  | .map es, hes => fun h => by
    rw [write] at h
    obtain ⟨ts, hts, h⟩ := except_bind_eq_ok_iff.mp h
    cases h
    obtain ⟨fs, hfs, hj⟩ := exists_spellsEntries es hes hts
    exact ⟨.mapOf fs, spells_mapOf hfs, isJson_mapOf hj⟩
  | .bytes _, _ | .date _ _, _ | .moment _ _, _ => nofun
  | .operator _, hv | .join _, hv | .buffer _, hv | .tuple _, hv | .set _, hv | .frozenset _, hv
  | .loop _, hv | .foreign _ _, hv => absurd hv id

theorem exists_spellsAll : ∀ (xs : List Value) {ts : List String}, AreStored xs →
    writeAll xs = .ok ts →
    ∃ ws, List.Forall₂ (fun t w => Spells t.toList w) ts ws ∧ areJson ws = true
  | [], _, _, h => by
    cases h
    exact ⟨[], .nil, rfl⟩
  | x :: xs, _, ⟨hx, hxs⟩, h => by
    obtain ⟨t, ht, h⟩ := except_bind_eq_ok_iff.mp h
    obtain ⟨ts, hts, h⟩ := except_bind_eq_ok_iff.mp h
    cases h
    obtain ⟨w, hw, hwj⟩ := exists_spells x hx ht
    obtain ⟨ws, hws, hwsj⟩ := exists_spellsAll xs hxs hts
    exact ⟨w :: ws, .cons hw hws, Bool.and_eq_true_iff.mpr ⟨hwj, hwsj⟩⟩

theorem exists_spellsEntries : ∀ (es : List (Value × Value)) {ts : List String},
    EntriesStored es → writeEntries es = .ok ts →
    ∃ fs, List.Forall₂ (fun t f => SpellsEntry t.toList f) ts fs ∧ entriesJson fs = true
  | [], _, _, h => by
    cases h
    exact ⟨[], .nil, rfl⟩
  | (k, v) :: es, _, ⟨_, hv, hes⟩, h => by
    obtain ⟨key, -, h⟩ := except_bind_eq_ok_iff.mp h
    obtain ⟨t, ht, h⟩ := except_bind_eq_ok_iff.mp h
    obtain ⟨ts, hts, h⟩ := except_bind_eq_ok_iff.mp h
    cases h
    obtain ⟨w, hw, hwj⟩ := exists_spells v hv ht
    obtain ⟨fs, hfs, hfsj⟩ := exists_spellsEntries es hes hts
    refine ⟨(.text key, w) :: fs, .cons ⟨key, t.toList, rfl, by simp, hw⟩ hfs, ?_⟩
    exact Bool.and_eq_true_iff.mpr ⟨Bool.and_eq_true_iff.mpr ⟨rfl, hwj⟩, hfsj⟩

end

end Json

end FilterTree
