import FilterTree.Proofs.Number.Rounding
import FilterTree.Proofs.Value.Projection
import FilterTree.Value.Listing

/-! What reading gives, and what is left of it in a condition: lists and mappings, to any depth, of
scalars that are within the bounds of their kinds. -/

namespace FilterTree

namespace Value

/-- Whether a value without parts is one that reading gives: a double in canonical form, a date or a
time of the calendar. An offset from universal time is a number of minutes. -/
def IsAtom : Value → Prop
  | .null | .bool _ | .int _ | .nan _ | .text _ | .bytes _ => True
  | .float x => x.IsCanonical
  | .date d _ => d.isValid = true
  | .moment t _ => t.isValid = true ∧ ∀ o, t.offset = some o → 60000000 ∣ o
  | _ => False

mutual

/-- Whether a value is one that reading gives. What stands for a key or in a set has no parts. -/
def IsDatum : Value → Prop
  | .list xs | .tuple xs => AreData xs
  | .set xs => ∀ x ∈ xs, IsAtom x
  | .map es => EntriesData es
  | .loop whole => IsDatum whole
  | v => IsAtom v

def AreData : List Value → Prop
  | [] => True
  | x :: xs => IsDatum x ∧ AreData xs

def EntriesData : List (Value × Value) → Prop
  | [] => True
  | (k, v) :: es => IsAtom k ∧ IsDatum v ∧ EntriesData es

end

mutual

/-- Whether a value is one that a leaf holds once it has been restored. -/
def IsStored : Value → Prop
  | .list xs => AreStored xs
  | .map es => EntriesStored es
  | v => IsAtom v

def AreStored : List Value → Prop
  | [] => True
  | x :: xs => IsStored x ∧ AreStored xs

def EntriesStored : List (Value × Value) → Prop
  | [] => True
  | (k, v) :: es => IsAtom k ∧ IsStored v ∧ EntriesStored es

end

theorem areData_iff {xs : List Value} : AreData xs ↔ ∀ x ∈ xs, x.IsDatum := by
  induction xs with
  | nil => simp [AreData]
  | cons x xs ih => simp [AreData, ih]

theorem entriesData_iff {es : List (Value × Value)} :
    EntriesData es ↔ ∀ e ∈ es, e.1.IsAtom ∧ e.2.IsDatum := by
  induction es with
  | nil => simp [EntriesData]
  | cons e es ih => simp [EntriesData, ih, and_assoc]

theorem areStored_iff {xs : List Value} : AreStored xs ↔ ∀ x ∈ xs, x.IsStored := by
  induction xs with
  | nil => simp [AreStored]
  | cons x xs ih => simp [AreStored, ih]

theorem entriesStored_iff {es : List (Value × Value)} :
    EntriesStored es ↔ ∀ e ∈ es, e.1.IsAtom ∧ e.2.IsStored := by
  induction es with
  | nil => simp [EntriesStored]
  | cons e es ih => simp [EntriesStored, ih, and_assoc]

theorem exists_mapOf {p q : Value → Prop} {es : List (Value × Value)}
    (h : ∀ e ∈ es, p e.1 ∧ q e.2) : ∃ fs, mapOf es = .map fs ∧ ∀ e ∈ fs, p e.1 ∧ q e.2 := by
  refine ⟨_, rfl, List.foldlRecOn (motive := fun fs : List (Value × Value) =>
    ∀ e ∈ fs, p e.1 ∧ q e.2) es _ (List.forall_mem_nil _) fun done hdone e he d hd => ?_⟩
  dsimp only [insertEntry] at hd
  split at hd
  · obtain ⟨c, hc, rfl⟩ := List.mem_map.mp hd
    split
    · exact ⟨(hdone c hc).1, (h e he).2⟩
    · exact hdone c hc
  · rcases List.mem_append.mp hd with hd | hd
    · exact hdone d hd
    · rw [List.mem_singleton.mp hd]
      exact h e he

theorem IsAtom.isDatum {v : Value} (h : v.IsAtom) : v.IsDatum := by
  cases v <;> first | exact h | exact absurd h id

theorem IsAtom.isStored {v : Value} (h : v.IsAtom) : v.IsStored := by
  cases v <;> first | exact h | exact absurd h id

theorem IsAtom.normal_eq {v : Value} (h : v.IsAtom) : v.normal = v := by
  cases v <;> first | rfl | exact absurd h id

theorem IsAtom.same_self {v : Value} (h : v.IsAtom) (hnew : v ≠ .nan .fresh) :
    v.same true v = true := by
  cases v
  case null | bool | int | text | bytes | date =>
    simp [same, sameScalar, sameNumber?]
  case float => simp [same, sameScalar, sameNumber?, Double.same]
  case moment => simp [same, sameScalar, Moment.same]
  case nan origin =>
    have hne : origin ≠ .fresh := fun hfresh => hnew (congrArg Value.nan hfresh)
    simp [same, sameScalar, hne]
  all_goals exact absurd h id

theorem IsDatum.of_field? {es : List (Value × Value)} {name : String} {v : Value}
    (hes : EntriesData es) (h : field? es name = some v) : v.IsDatum := by
  obtain ⟨e, he, rfl⟩ := Option.map_eq_some_iff.mp h
  exact (entriesData_iff.mp hes e (List.mem_of_find?_eq_some he)).2

theorem mem_normalKeyed {xs : List Value} {p : String × Value} (h : p ∈ normalKeyed xs) :
    ∃ x ∈ xs, p.2 = x.normal := by
  induction xs with
  | nil => cases h
  | cons x xs ih =>
    rcases List.mem_cons.mp h with rfl | h
    · exact ⟨x, List.mem_cons_self, rfl⟩
    · obtain ⟨y, hy, heq⟩ := ih h
      exact ⟨y, List.mem_cons_of_mem x hy, heq⟩

mutual

/-- Data that can be seen to its end has lists and mappings alone in its normal form. -/
theorem isStored_normal : ∀ v : Value, v.IsDatum → v.isEndless = false → v.normal.IsStored
  | .list xs, h, hends | .tuple xs, h, hends => areStored_normalAll xs h hends
  | .map es, h, hends => entriesStored_normalEntries es h hends
  | .set xs, h, _ => by
    refine areStored_iff.mpr fun y hy => ?_
    obtain ⟨key, hkey⟩ := mem_of_mem_sortKeyed hy
    obtain ⟨x, hx, rfl⟩ := mem_normalKeyed hkey
    rw [(h x hx).normal_eq]
    exact (h x hx).isStored
  | .null, h, _ | .bool _, h, _ | .int _, h, _ | .float _, h, _ | .nan _, h, _ | .text _, h, _
  | .bytes _, h, _ | .date _ _, h, _ | .moment _ _, h, _ => h
  | .operator _, h, _ | .join _, h, _ | .buffer _, h, _ | .frozenset _, h, _
  | .foreign _ _, h, _ => absurd h id

theorem areStored_normalAll : ∀ xs : List Value, AreData xs → anyEndless xs = false →
    AreStored (normalAll xs)
  | [], _, _ => trivial
  | x :: xs, ⟨hx, hxs⟩, hends => by
    obtain ⟨hxends, hxsends⟩ := Bool.or_eq_false_iff.mp hends
    exact ⟨isStored_normal x hx hxends, areStored_normalAll xs hxs hxsends⟩

theorem entriesStored_normalEntries : ∀ es : List (Value × Value), EntriesData es →
    anyEntryEndless es = false → EntriesStored (normalEntries es)
  | [], _, _ => trivial
  | (k, v) :: es, ⟨hk, hv, hes⟩, hends => by
    obtain ⟨hkvends, hesends⟩ := Bool.or_eq_false_iff.mp hends
    exact ⟨hk, isStored_normal v hv (Bool.or_eq_false_iff.mp hkvends).2,
      entriesStored_normalEntries es hes hesends⟩

end

mutual

theorem isNormal_of_isStored : ∀ v : Value, v.IsStored → v.isNormal = true ∧ v.isEndless = false
  | .list xs, h => areNormal_of_areStored xs h
  | .map es, h => entriesNormal_of_entriesStored es h
  | .null, _ | .bool _, _ | .int _, _ | .float _, _ | .nan _, _ | .text _, _ | .bytes _, _
  | .date _ _, _ | .moment _ _, _ => ⟨rfl, rfl⟩
  | .operator _, h | .join _, h | .buffer _, h | .tuple _, h | .set _, h | .frozenset _, h
  | .loop _, h | .foreign _ _, h => absurd h id

theorem areNormal_of_areStored : ∀ xs : List Value, AreStored xs →
    areNormal xs = true ∧ anyEndless xs = false
  | [], _ => ⟨rfl, rfl⟩
  | x :: xs, ⟨hx, hxs⟩ => by
    obtain ⟨hn, he⟩ := isNormal_of_isStored x hx
    obtain ⟨hns, hes⟩ := areNormal_of_areStored xs hxs
    rw [areNormal, anyEndless, hn, he, hns, hes]
    exact ⟨rfl, rfl⟩

theorem entriesNormal_of_entriesStored : ∀ es : List (Value × Value), EntriesStored es →
    entriesNormal es = true ∧ anyEntryEndless es = false
  | [], _ => ⟨rfl, rfl⟩
  | (k, v) :: es, ⟨hk, hv, hes⟩ => by
    obtain ⟨hn, he⟩ := isNormal_of_isStored v hv
    obtain ⟨hns, hends⟩ := entriesNormal_of_entriesStored es hes
    have hkey : k.isEndless = false := by
      cases k <;> first | rfl | exact absurd hk id
    rw [entriesNormal, anyEntryEndless, hn, he, hns, hends, hkey]
    exact ⟨rfl, rfl⟩

end

mutual

theorem isStored_of_portable : ∀ v : Value, v.Portable → v.isJson = true →
    v.IsStored ∧ v.isLegible = true
  | .list xs, hp, hj => areStored_of_allPortable xs hp hj
  | .map es, hp, hj => entriesStored_of_entriesPortable es hp hj
  | .int _, hp, _ => ⟨trivial, hp⟩
  | .float _, hp, _ => ⟨hp, rfl⟩
  | .null, _, _ | .bool _, _, _ | .text _, _, _ => ⟨trivial, rfl⟩

theorem areStored_of_allPortable : ∀ xs : List Value, AllPortable xs → areJson xs = true →
    AreStored xs ∧ areLegible xs = true
  | [], _, _ => ⟨trivial, rfl⟩
  | x :: xs, ⟨hp, hps⟩, hj => by
    obtain ⟨hjx, hjs⟩ := Bool.and_eq_true_iff.mp hj
    obtain ⟨hx, hlegible⟩ := isStored_of_portable x hp hjx
    obtain ⟨hxs, hlegibles⟩ := areStored_of_allPortable xs hps hjs
    exact ⟨⟨hx, hxs⟩, by rw [areLegible, hlegible, hlegibles, Bool.and_self]⟩

theorem entriesStored_of_entriesPortable : ∀ es : List (Value × Value), EntriesPortable es →
    entriesJson es = true → EntriesStored es ∧ entriesLegible es = true
  | [], _, _ => ⟨trivial, rfl⟩
  | (k, v) :: es, ⟨hk, _, hp, hps⟩, hj => by
    obtain ⟨s, rfl⟩ := isText_iff.mp hk
    obtain ⟨hjkv, hjs⟩ := Bool.and_eq_true_iff.mp hj
    obtain ⟨hv, hlegible⟩ := isStored_of_portable v hp (Bool.and_eq_true_iff.mp hjkv).2
    obtain ⟨hes, hlegibles⟩ := entriesStored_of_entriesPortable es hps hjs
    exact ⟨⟨trivial, hv, hes⟩, by rw [entriesLegible, hlegible, hlegibles]; rfl⟩

end

/-! ### What a set lists -/

namespace Slots
variable {t : Slots} {xs : List Value}

def Among (t : Slots) (xs : List Value) : Prop :=
  ∀ item, some item ∈ t → item.2 ∈ xs

theorem Among.empty (size : Nat) (xs : List Value) : (empty size).Among xs := by
  intro item h
  cases List.eq_of_mem_replicate h

theorem Among.place (h : t.Among xs) {item : Int × Value} (hitem : item.2 ∈ xs) :
    (t.place item).Among xs := by
  intro other hother
  rcases List.mem_or_eq_of_mem_set hother with hold | hnew
  · exact h other hold
  · cases hnew
    exact hitem

theorem Among.mem_items (h : t.Among xs) {item : Int × Value} (hitem : item ∈ t.items) :
    item.2 ∈ xs := by
  obtain ⟨slot, hslot, hsome⟩ := List.mem_filterMap.mp hitem
  cases hsome
  exact h item hslot

theorem Among.add (h : t.Among xs) {item : Int × Value} (hitem : item.2 ∈ xs) :
    (t.add item).Among xs := by
  have hplace := h.place hitem
  unfold Slots.add
  dsimp only
  split
  · exact hplace
  · refine List.foldlRecOn (motive := fun t : Slots => t.Among xs) _ _ (.empty _ xs) ?_
    exact fun t ht other hother => ht.place (hplace.mem_items hother)

end Slots

end Value

end FilterTree
