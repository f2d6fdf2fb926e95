import FilterTree.Proofs.Value.Portable

/-! What a normal form keeps of a value. Lists and tuples keep their items in their order, mappings
their keys and the order of these, and a set lists each of its items once. No tuple and no set is left
but in keys, so that taking the normal form once more changes nothing. -/

namespace FilterTree.Value

mutual

def isNormal : Value → Bool
  | .tuple _ | .set _ | .frozenset _ => false
  | .list xs => areNormal xs
  | .map es => entriesNormal es
  | _ => true

def areNormal : List Value → Bool
  | [] => true
  | x :: xs => isNormal x && areNormal xs

def entriesNormal : List (Value × Value) → Bool
  | [] => true
  | (_, v) :: es => isNormal v && entriesNormal es

end

theorem areNormal_iff {xs : List Value} : areNormal xs = true ↔ ∀ x ∈ xs, x.isNormal = true := by
  induction xs with
  | nil => simp [areNormal]
  | cons x xs ih => simp [areNormal, ih]

/-! ### Values in normal form -/

mutual

theorem normal_eq_self : ∀ v : Value, v.isNormal = true → v.normal = v
  | .list xs, h => by rw [normal, normalAll_eq_self xs h]
  | .map es, h => by rw [normal, normalEntries_eq_self es h]
  | .null, _ | .bool _, _ | .int _, _ | .float _, _ | .nan _, _ | .text _, _ | .operator _, _
  | .join _, _ | .bytes _, _ | .buffer _, _ | .date _ _, _ | .moment _ _, _ | .loop _, _
  | .foreign _ _, _ => rfl

theorem normalAll_eq_self : ∀ xs : List Value, areNormal xs = true → normalAll xs = xs
  | [], _ => rfl
  | x :: xs, h => by
    obtain ⟨hx, hxs⟩ := Bool.and_eq_true_iff.mp h
    rw [normalAll, normal_eq_self x hx, normalAll_eq_self xs hxs]

theorem normalEntries_eq_self : ∀ es : List (Value × Value), entriesNormal es = true →
    normalEntries es = es
  | [], _ => rfl
  | (k, v) :: es, h => by
    obtain ⟨hv, hes⟩ := Bool.and_eq_true_iff.mp h
    rw [normalEntries, normal_eq_self v hv, normalEntries_eq_self es hes]

end

mutual

theorem isSortable_of_isNormal : ∀ v : Value, v.isNormal = true → v.isSortable = true
  | .list xs, h => areSortable_of_areNormal xs h
  | .map es, h => entriesSortable_of_entriesNormal es h
  | .null, _ | .bool _, _ | .int _, _ | .float _, _ | .nan _, _ | .text _, _ | .operator _, _
  | .join _, _ | .bytes _, _ | .buffer _, _ | .date _ _, _ | .moment _ _, _ | .loop _, _
  | .foreign _ _, _ => rfl

theorem areSortable_of_areNormal : ∀ xs : List Value, areNormal xs = true → areSortable xs = true
  | [], _ => rfl
  | x :: xs, h => by
    obtain ⟨hx, hxs⟩ := Bool.and_eq_true_iff.mp h
    rw [areSortable, isSortable_of_isNormal x hx, areSortable_of_areNormal xs hxs, Bool.and_self]

theorem entriesSortable_of_entriesNormal : ∀ es : List (Value × Value), entriesNormal es = true →
    entriesSortable es = true
  | [], _ => rfl
  | (k, v) :: es, h => by
    obtain ⟨hv, hes⟩ := Bool.and_eq_true_iff.mp h
    rw [entriesSortable, isSortable_of_isNormal v hv, entriesSortable_of_entriesNormal es hes,
      Bool.and_self]

end

/-! ### What sorting keeps -/

theorem normalKeyed_eq_map (xs : List Value) :
    normalKeyed xs = xs.map fun x => (display x, normal x) := by
  induction xs with
  | nil => rfl
  | cons x xs ih => rw [normalKeyed, ih, List.map_cons]

theorem sortKeyed_map {α β : Type} (f : α → β) (items : List (String × α)) :
    sortKeyed (items.map fun p => (p.1, f p.2)) = (sortKeyed items).map f := by
  unfold sortKeyed
  rw [← List.map_mergeSort (r := fun a b => decide (a.1 ≤ b.1)) fun _ _ _ _ => rfl, List.map_map,
    List.map_map]
  rfl

def inOrder (xs : List Value) : List Value :=
  sortKeyed (xs.map fun x => (display x, x))

theorem inOrder_perm (xs : List Value) : (inOrder xs).Perm xs := by
  have hperm := (List.mergeSort_perm (xs.map fun x => (display x, x))
    fun a b => decide (a.1 ≤ b.1)).map (·.2)
  rw [List.map_map] at hperm
  exact hperm.trans (List.Perm.of_eq (List.map_id' xs))

theorem sortKeyed_normalKeyed (xs : List Value) :
    sortKeyed (normalKeyed xs) = (inOrder xs).map normal := by
  rw [inOrder, ← sortKeyed_map, List.map_map, normalKeyed_eq_map]
  rfl

theorem normalAll_eq_map (xs : List Value) : normalAll xs = xs.map normal := by
  induction xs with
  | nil => rfl
  | cons x xs ih => rw [normalAll, ih, List.map_cons]

/-! ### Normal forms -/

mutual

theorem isNormal_normal : ∀ v : Value, v.normal.isNormal = true
  | .set xs | .frozenset xs => by
    rw [normal, sortKeyed_normalKeyed, isNormal, areNormal_iff]
    intro y hy
    obtain ⟨x, hx, rfl⟩ := List.mem_map.mp hy
    have hall := areNormal_iff.mp (areNormal_normalAll xs)
    rw [normalAll_eq_map] at hall
    exact hall _ (List.mem_map_of_mem ((inOrder_perm xs).mem_iff.mp hx))
  | .list xs | .tuple xs => areNormal_normalAll xs
  | .map es => entriesNormal_normalEntries es
  | .null | .bool _ | .int _ | .float _ | .nan _ | .text _ | .operator _ | .join _ | .bytes _
  | .buffer _ | .date _ _ | .moment _ _ | .loop _ | .foreign _ _ => rfl

theorem areNormal_normalAll : ∀ xs : List Value, areNormal (normalAll xs) = true
  | [] => rfl
  | x :: xs => by
    rw [normalAll, areNormal, isNormal_normal x, areNormal_normalAll xs, Bool.and_self]

theorem entriesNormal_normalEntries : ∀ es : List (Value × Value),
    entriesNormal (normalEntries es) = true
  | [] => rfl
  | (k, v) :: es => by
    rw [normalEntries, entriesNormal, isNormal_normal v, entriesNormal_normalEntries es,
      Bool.and_self]

end

theorem normal_normal (v : Value) : v.normal.normal = v.normal :=
  normal_eq_self v.normal (isNormal_normal v)

/-! ### Values without an end -/

theorem anyEndless_eq_any (xs : List Value) : anyEndless xs = xs.any isEndless := by
  induction xs with
  | nil => rfl
  | cons x xs ih => rw [anyEndless, ih, List.any_cons]

mutual

theorem isEndless_normal : ∀ v : Value, v.normal.isEndless = v.isEndless
  | .set xs | .frozenset xs => by
    rw [normal, sortKeyed_normalKeyed, isEndless, isEndless, anyEndless_eq_any,
      ((inOrder_perm xs).map normal).any_eq, ← normalAll_eq_map, ← anyEndless_eq_any]
    exact anyEndless_normalAll xs
  | .list xs | .tuple xs => anyEndless_normalAll xs
  | .map es => anyEntryEndless_normalEntries es
  | .null | .bool _ | .int _ | .float _ | .nan _ | .text _ | .operator _ | .join _ | .bytes _
  | .buffer _ | .date _ _ | .moment _ _ | .loop _ | .foreign _ _ => rfl

theorem anyEndless_normalAll : ∀ xs : List Value, anyEndless (normalAll xs) = anyEndless xs
  | [] => rfl
  | x :: xs => by
    rw [normalAll, anyEndless, anyEndless, isEndless_normal x, anyEndless_normalAll xs]

theorem anyEntryEndless_normalEntries : ∀ es : List (Value × Value),
    anyEntryEndless (normalEntries es) = anyEntryEndless es
  | [] => rfl
  | (k, v) :: es => by
    rw [normalEntries, anyEntryEndless, anyEntryEndless, isEndless_normal v,
      anyEntryEndless_normalEntries es]

end

/-! ### What is kept -/

def isCollection : Value → Bool
  | .list _ | .tuple _ | .set _ | .frozenset _ | .map _ => true
  | _ => false

mutual

/-- A value with lists in place of its tuples and sets, at every depth. Items and keys stay in their
order; of a set each item comes once, in some order. -/
inductive Relisted : Value → Value → Prop
  | scalar {v : Value} (h : v.isCollection = false) : Relisted v v
  | list {xs ys : List Value} (h : AllRelisted xs ys) : Relisted (.list xs) (.list ys)
  | tuple {xs ys : List Value} (h : AllRelisted xs ys) : Relisted (.tuple xs) (.list ys)
  | set {xs zs ys : List Value} (hperm : zs.Perm xs) (h : AllRelisted zs ys) :
      Relisted (.set xs) (.list ys)
  | frozenset {xs zs ys : List Value} (hperm : zs.Perm xs) (h : AllRelisted zs ys) :
      Relisted (.frozenset xs) (.list ys)
  | map {es ds : List (Value × Value)} (h : EntriesRelisted es ds) : Relisted (.map es) (.map ds)

inductive AllRelisted : List Value → List Value → Prop
  | nil : AllRelisted [] []
  | cons {x y : Value} {xs ys : List Value} (h : Relisted x y) (hs : AllRelisted xs ys) :
      AllRelisted (x :: xs) (y :: ys)

inductive EntriesRelisted : List (Value × Value) → List (Value × Value) → Prop
  | nil : EntriesRelisted [] []
  | cons {k v w : Value} {es ds : List (Value × Value)} (h : Relisted v w)
      (hs : EntriesRelisted es ds) : EntriesRelisted ((k, v) :: es) ((k, w) :: ds)

end

theorem allRelisted_normal_iff {xs : List Value} :
    AllRelisted xs (xs.map normal) ↔ ∀ x ∈ xs, Relisted x x.normal := by
  constructor
  · intro h
    induction xs with
    | nil => exact List.forall_mem_nil _
    | cons x xs ih =>
      cases h with
      | cons hx hxs => exact List.forall_mem_cons.mpr ⟨hx, ih hxs⟩
  · intro h
    induction xs with
    | nil => exact .nil
    | cons x xs ih =>
      obtain ⟨hx, hxs⟩ := List.forall_mem_cons.mp h
      exact .cons hx (ih hxs)

theorem allRelisted_inOrder {xs : List Value} (h : AllRelisted xs (normalAll xs)) :
    AllRelisted (inOrder xs) (sortKeyed (normalKeyed xs)) := by
  rw [sortKeyed_normalKeyed]
  rw [normalAll_eq_map] at h
  exact allRelisted_normal_iff.mpr fun x hx =>
    allRelisted_normal_iff.mp h x ((inOrder_perm xs).mem_iff.mp hx)

mutual

theorem relisted_normal : ∀ v : Value, Relisted v v.normal
  | .set xs => .set (inOrder_perm xs) (allRelisted_inOrder (allRelisted_normalAll xs))
  | .frozenset xs => .frozenset (inOrder_perm xs) (allRelisted_inOrder (allRelisted_normalAll xs))
  | .list xs => .list (allRelisted_normalAll xs)
  | .tuple xs => .tuple (allRelisted_normalAll xs)
  | .map es => .map (entriesRelisted_normalEntries es)
  | .null | .bool _ | .int _ | .float _ | .nan _ | .text _ | .operator _ | .join _ | .bytes _
  | .buffer _ | .date _ _ | .moment _ _ | .loop _ | .foreign _ _ => .scalar rfl

theorem allRelisted_normalAll : ∀ xs : List Value, AllRelisted xs (normalAll xs)
  | [] => .nil
  | x :: xs => .cons (relisted_normal x) (allRelisted_normalAll xs)

theorem entriesRelisted_normalEntries : ∀ es : List (Value × Value),
    EntriesRelisted es (normalEntries es)
  | [] => .nil
  | (_, v) :: es => .cons (relisted_normal v) (entriesRelisted_normalEntries es)

end

end FilterTree.Value
