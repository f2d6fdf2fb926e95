import FilterTree.Value.Normal

/-! Data of the shape that JSON has. It is in normal form already, and can be kept as it is. -/

namespace FilterTree.Value

def isText : Value → Bool
  | .text _ => true
  | _ => false

mutual

/-- Scalars, lists and mappings whose keys are strings, to any depth. -/
def isJson : Value → Bool
  | .null | .bool _ | .int _ | .float _ | .nan _ | .text _ => true
  | .list xs => areJson xs
  | .map es => entriesJson es
  | _ => false

def areJson : List Value → Bool
  | [] => true
  | x :: xs => isJson x && areJson xs

def entriesJson : List (Value × Value) → Bool
  | [] => true
  | (k, v) :: es => k.isText && isJson v && entriesJson es

end

theorem isText_iff {v : Value} : v.isText = true ↔ ∃ s, v = .text s := by
  cases v <;> simp [isText]

theorem areJson_iff {xs : List Value} : areJson xs = true ↔ ∀ x ∈ xs, x.isJson = true := by
  induction xs with
  | nil => simp [areJson]
  | cons x xs ih => simp [areJson, ih]

theorem entriesJson_iff {es : List (Value × Value)} :
    entriesJson es = true ↔ ∀ e ∈ es, e.1.isText = true ∧ e.2.isJson = true := by
  induction es with
  | nil => simp [entriesJson]
  | cons e es ih => simp [entriesJson, ih, and_assoc]

theorem isJson_of_field? {es : List (Value × Value)} {name : String} {v : Value}
    (hes : entriesJson es = true) (h : field? es name = some v) : v.isJson = true := by
  obtain ⟨e, he, rfl⟩ := Option.map_eq_some_iff.mp h
  exact (entriesJson_iff.mp hes e (List.mem_of_find?_eq_some he)).2

theorem same_text (asKey : Bool) (s t : String) : same asKey (.text s) (.text t) = (s == t) := by
  simp [same, sameScalar]

@[simp] theorem field?_nil {α : Type} (name : String) :
    field? ([] : List (Value × α)) name = none := rfl

@[simp] theorem field?_cons_text {α : Type} (key name : String) (v : α) (es : List (Value × α)) :
    field? ((.text key, v) :: es) name = if key = name then some v else field? es name := by
  by_cases h : key = name
  · simp [field?, lookup?, same, sameScalar, h]
  · simp [field?, lookup?, same, sameScalar, h]

mutual

theorem kept_of_isJson : ∀ v : Value, v.isJson = true →
    v.normal = v ∧ v.isEndless = false ∧ v.isSortable = true
  | .list xs, h => by
    obtain ⟨hn, he, hs⟩ := kept_of_areJson xs h
    exact ⟨by rw [normal, hn], he, hs⟩
  | .map es, h => by
    obtain ⟨hn, he, hs⟩ := kept_of_entriesJson es h
    exact ⟨by rw [normal, hn], he, hs⟩
  | .null, _ | .bool _, _ | .int _, _ | .float _, _ | .nan _, _ | .text _, _ => ⟨rfl, rfl, rfl⟩

theorem kept_of_areJson : ∀ xs : List Value, areJson xs = true →
    normalAll xs = xs ∧ anyEndless xs = false ∧ areSortable xs = true
  | [], _ => ⟨rfl, rfl, rfl⟩
  | x :: xs, h => by
    have h' := Bool.and_eq_true_iff.mp h
    obtain ⟨hn, he, hs⟩ := kept_of_isJson x h'.1
    obtain ⟨hns, hes, hss⟩ := kept_of_areJson xs h'.2
    exact ⟨by rw [normalAll, hn, hns], by rw [anyEndless, he, hes]; rfl,
      by rw [areSortable, hs, hss]; rfl⟩

theorem kept_of_entriesJson : ∀ es : List (Value × Value), entriesJson es = true →
    normalEntries es = es ∧ anyEntryEndless es = false ∧ entriesSortable es = true
  | [], _ => ⟨rfl, rfl, rfl⟩
  | (k, v) :: es, h => by
    have h' := Bool.and_eq_true_iff.mp h
    have hk := Bool.and_eq_true_iff.mp h'.1
    obtain ⟨s, rfl⟩ := isText_iff.mp hk.1
    obtain ⟨hn, he, hs⟩ := kept_of_isJson v hk.2
    obtain ⟨hns, hes, hss⟩ := kept_of_entriesJson es h'.2
    exact ⟨by rw [normalEntries, hn, hns], by rw [anyEntryEndless, he, hes]; rfl,
      by rw [entriesSortable, hs, hss]; rfl⟩

end

end FilterTree.Value
