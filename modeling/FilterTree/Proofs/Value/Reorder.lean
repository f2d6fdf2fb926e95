import FilterTree.Proofs.Value.Projection
import FilterTree.Proofs.Value.Shown
import FilterTree.Tree.Store
import FilterTree.Value.Literal
import Mathlib.Data.List.Perm.Basic
import Mathlib.Data.List.Sort
import Mathlib.Data.String.Basic

/-! Values whose sets list their items in another order. Normal forms and literals put the items in
order by what they display, so that the order they had does not show, unless an item itself holds a
set whose order its displayed form shows. -/

namespace FilterTree

namespace Value

/-! ### One value, listed in two orders -/

mutual

/-- The same value, the items of its sets in any order, at every depth. Keys are left as they are. -/
inductive Reordered : Value → Value → Prop where
  | refl (v : Value) : Reordered v v
  | list {xs ys : List Value} : AllReordered xs ys → Reordered (.list xs) (.list ys)
  | tuple {xs ys : List Value} : AllReordered xs ys → Reordered (.tuple xs) (.tuple ys)
  | set {xs zs ys : List Value} :
      xs.Perm zs → AllReordered zs ys → Reordered (.set xs) (.set ys)
  | frozenset {xs zs ys : List Value} :
      xs.Perm zs → AllReordered zs ys → Reordered (.frozenset xs) (.frozenset ys)
  | map {es fs : List (Value × Value)} : EntriesReordered es fs → Reordered (.map es) (.map fs)

inductive AllReordered : List Value → List Value → Prop where
  | nil : AllReordered [] []
  | cons {x y : Value} {xs ys : List Value} :
      Reordered x y → AllReordered xs ys → AllReordered (x :: xs) (y :: ys)

inductive EntriesReordered : List (Value × Value) → List (Value × Value) → Prop where
  | nil : EntriesReordered [] []
  | cons {k v w : Value} {es fs : List (Value × Value)} :
      Reordered v w → EntriesReordered es fs → EntriesReordered ((k, v) :: es) ((k, w) :: fs)

end

mutual

/-- Whether the value can be listed in one order only. -/
def IsSteady : Value → Prop
  | .set xs | .frozenset xs => xs.length ≤ 1 ∧ AllSteady xs
  | .list xs | .tuple xs => AllSteady xs
  | .map es => EntriesSteady es
  | _ => True

def AllSteady : List Value → Prop
  | [] => True
  | x :: xs => IsSteady x ∧ AllSteady xs

def EntriesSteady : List (Value × Value) → Prop
  | [] => True
  | (_, v) :: es => IsSteady v ∧ EntriesSteady es

end

theorem allSteady_iff {xs : List Value} : AllSteady xs ↔ ∀ x ∈ xs, x.IsSteady := by
  induction xs with
  | nil => simp [AllSteady]
  | cons x xs ih => simp [AllSteady, ih]

theorem eq_of_perm_of_length_le_one {α : Type} {xs zs : List α} (h : xs.Perm zs)
    (hxs : xs.length ≤ 1) : xs = zs := by
  rcases xs with _ | ⟨x, _ | ⟨_, _⟩⟩
  · exact h.nil_eq
  · exact List.singleton_perm.mp h
  · simp at hxs

mutual

theorem eq_of_steady : ∀ {v w : Value}, Reordered v w → v.IsSteady → v = w
  | _, _, .refl _, _ => rfl
  | _, _, .list h, hv | _, _, .tuple h, hv => by rw [eq_of_allSteady h hv]
  | _, _, .set hperm h, ⟨hlength, hv⟩ | _, _, .frozenset hperm h, ⟨hlength, hv⟩ => by
    obtain rfl := eq_of_perm_of_length_le_one hperm hlength
    rw [eq_of_allSteady h hv]
  | _, _, .map h, hv => by rw [eq_of_entriesSteady h hv]

theorem eq_of_allSteady : ∀ {xs ys : List Value}, AllReordered xs ys → AllSteady xs → xs = ys
  | _, _, .nil, _ => rfl
  | _, _, .cons h hs, ⟨hx, hxs⟩ => by rw [eq_of_steady h hx, eq_of_allSteady hs hxs]

theorem eq_of_entriesSteady : ∀ {es fs : List (Value × Value)}, EntriesReordered es fs →
    EntriesSteady es → es = fs
  | _, _, .nil, _ => rfl
  | _, _, .cons h hs, ⟨hv, hes⟩ => by rw [eq_of_steady h hv, eq_of_entriesSteady hs hes]

end

/-! ### Putting items in order -/

theorem pairwise_inOrder (xs : List Value) :
    (inOrder xs).Pairwise fun a b => display a ≤ display b := by
  let le (a b : String × Value) : Bool := decide (a.1 ≤ b.1)
  have hsorted : ((xs.map fun x => (display x, x)).mergeSort le).Pairwise
      fun a b => le a b = true := by
    refine List.pairwise_mergeSort (fun a b c hab hbc => ?_) (fun a b => ?_) _
    · exact decide_eq_true (le_trans (of_decide_eq_true hab) (of_decide_eq_true hbc))
    · simpa [le] using le_total a.1 b.1
  -- each item is still sorted under its own displayed form
  have hkeyed : ∀ p ∈ (xs.map fun x => (display x, x)).mergeSort le, p.1 = display p.2 := by
    intro p hp
    obtain ⟨x, -, rfl⟩ := List.mem_map.mp ((List.mergeSort_perm _ le).mem_iff.mp hp)
    rfl
  refine List.pairwise_map.mpr (hsorted.imp_of_mem fun {a b} ha hb hab => ?_)
  rw [← hkeyed a ha, ← hkeyed b hb]
  exact of_decide_eq_true hab

theorem inOrder_eq_of_perm {xs ys : List Value} (hperm : ys.Perm xs)
    (hsorted : ys.Pairwise fun a b => display a ≤ display b)
    (htold : ∀ a ∈ ys, ∀ b ∈ ys, display a = display b → a = b) : inOrder xs = ys := by
  refine ((inOrder_perm xs).trans hperm.symm).eq_of_pairwise (fun a b ha hb hab hba => ?_)
    (pairwise_inOrder xs) hsorted
  exact htold a (hperm.mem_iff.mpr ((inOrder_perm xs).mem_iff.mp ha)) b hb (le_antisymm hab hba)

theorem sortKeyed_singleton {α : Type} (a : String) (x : α) : sortKeyed [(a, x)] = [x] := by
  simp [sortKeyed]

theorem sortKeyed_pair {α : Type} (a b : String) (x y : α) :
    sortKeyed [(a, x), (b, y)] = if a ≤ b then [x, y] else [y, x] := by
  simp only [sortKeyed, List.mergeSort]
  by_cases h : a ≤ b <;> simp [h, List.MergeSort.Internal.splitInTwo]

theorem sortKeyed_display {α : Type} (f : Value → α) (xs : List Value) :
    sortKeyed (xs.map fun x => (display x, f x)) = (inOrder xs).map f := by
  rw [inOrder, ← sortKeyed_map, List.map_map]
  rfl

theorem literalKeyed_eq_map (xs : List Value) :
    literalKeyed xs = xs.map fun x => (display x, literal x) := by
  induction xs with
  | nil => rfl
  | cons x xs ih => rw [literalKeyed, ih, List.map_cons]

def Precedes (x y : Value) : Prop :=
  ∀ x' y' : Value, Reordered x x' → Reordered y y' → display x' < display y'

/-- Whether two items of a set come in an order that no listing changes, or are no different. -/
def Ranked (x y : Value) : Prop :=
  Precedes x y ∨ Precedes y x ∨ x = y ∧ x.IsSteady

mutual

/-- Whether the items of every set can be put in one order. -/
def IsOrderly : Value → Prop
  | .set xs | .frozenset xs => AllOrderly xs ∧ xs.Pairwise Ranked
  | .list xs | .tuple xs => AllOrderly xs
  | .map es => EntriesOrderly es
  | _ => True

def AllOrderly : List Value → Prop
  | [] => True
  | x :: xs => IsOrderly x ∧ AllOrderly xs

def EntriesOrderly : List (Value × Value) → Prop
  | [] => True
  | (_, v) :: es => IsOrderly v ∧ EntriesOrderly es

end

mutual

theorem isOrderly_of_steady : ∀ v : Value, v.IsSteady → v.IsOrderly
  | .set xs, ⟨hlength, h⟩ | .frozenset xs, ⟨hlength, h⟩ => by
    refine ⟨allOrderly_of_steady xs h, ?_⟩
    rcases xs with _ | ⟨x, _ | ⟨_, _⟩⟩
    · exact .nil
    · exact List.pairwise_singleton ..
    · simp at hlength
  | .list xs, h | .tuple xs, h => allOrderly_of_steady xs h
  | .map es, h => entriesOrderly_of_steady es h
  | .null, _ | .bool _, _ | .int _, _ | .float _, _ | .nan _, _ | .text _, _ | .operator _, _
  | .join _, _ | .bytes _, _ | .buffer _, _ | .date _ _, _ | .moment _ _, _ | .loop _, _
  | .foreign _ _, _ => trivial

theorem allOrderly_of_steady : ∀ xs : List Value, AllSteady xs → AllOrderly xs
  | [], _ => trivial
  | x :: xs, ⟨hx, hxs⟩ => ⟨isOrderly_of_steady x hx, allOrderly_of_steady xs hxs⟩

theorem entriesOrderly_of_steady : ∀ es : List (Value × Value), EntriesSteady es →
    EntriesOrderly es
  | [], _ => trivial
  | (_, v) :: es, ⟨hv, hes⟩ => ⟨isOrderly_of_steady v hv, entriesOrderly_of_steady es hes⟩

end

theorem areBasic_eq_all (xs : List Value) : areBasic xs = xs.all isBasic := by
  induction xs with
  | nil => rfl
  | cons x xs ih => rw [areBasic, ih, List.all_cons]

theorem pairwise_ranked_of_steady {xs : List Value} (h : AllSteady xs)
    (htold : areBasic xs = true ∨ ∀ x ∈ xs, ∀ y ∈ xs, display x = display y → x = y) :
    xs.Pairwise Ranked := by
  refine List.pairwise_of_forall_mem_list fun x hx y hy => ?_
  have hsteady := allSteady_iff.mp h
  have heq : display x = display y → x = y := by
    rcases htold with hbasic | htold
    · rw [areBasic_eq_all, List.all_eq_true] at hbasic
      exact Shown.display_injective (hbasic x hx) (hbasic y hy)
    · exact htold x hx y hy
  have hprecedes {a b : Value} (ha : a.IsSteady) (hb : b.IsSteady) (hab : display a < display b) :
      Precedes a b := by
    intro a' b' ha' hb'
    rwa [← eq_of_steady ha' ha, ← eq_of_steady hb' hb]
  rcases lt_trichotomy (display x) (display y) with hlt | hsame | hlt
  · exact .inl (hprecedes (hsteady x hx) (hsteady y hy) hlt)
  · exact .inr (.inr ⟨heq hsame, hsteady x hx⟩)
  · exact .inr (.inl (hprecedes (hsteady y hy) (hsteady x hx) hlt))

/-! ### Sets whose items are ranked -/

theorem Ranked.symm {x y : Value} (h : Ranked x y) : Ranked y x := by
  rcases h with h | h | ⟨rfl, h⟩
  · exact .inr (.inl h)
  · exact .inl h
  · exact .inr (.inr ⟨rfl, h⟩)

theorem Ranked.listed {x y x' y' : Value} (h : Ranked x y) (hx : Reordered x x')
    (hy : Reordered y y') (hxy : display x ≤ display y) :
    display x' < display y' ∨ x' = y' := by
  rcases h with h | h | ⟨rfl, h⟩
  · exact .inl (h x' y' hx hy)
  · exact absurd hxy (not_le_of_gt (h y x (.refl y) (.refl x)))
  · exact .inr ((eq_of_steady hx h).symm.trans (eq_of_steady hy h))

theorem forall₂_of_allReordered : ∀ {xs ys : List Value}, AllReordered xs ys →
    List.Forall₂ Reordered xs ys
  | _, _, .nil => .nil
  | _, _, .cons h hs => .cons h (forall₂_of_allReordered hs)

theorem allReordered_iff {xs ys : List Value} :
    AllReordered xs ys ↔ List.Forall₂ Reordered xs ys := by
  refine ⟨forall₂_of_allReordered, fun h => ?_⟩
  induction h with
  | nil => exact .nil
  | cons h _ ih => exact .cons h ih

theorem exists_of_mem_listed {xs ys : List Value} (h : List.Forall₂ Reordered xs ys) {y : Value}
    (hy : y ∈ ys) : ∃ x ∈ xs, Reordered x y := by
  induction h with
  | nil => cases hy
  | @cons x z xs ys hxz _ ih =>
    rcases List.mem_cons.mp hy with rfl | hy
    · exact ⟨x, List.mem_cons_self, hxz⟩
    · obtain ⟨a, ha, hay⟩ := ih hy
      exact ⟨a, List.mem_cons_of_mem _ ha, hay⟩

theorem pairwise_of_ranked {xs ys : List Value} (h : List.Forall₂ Reordered xs ys)
    (hsorted : xs.Pairwise fun a b => display a ≤ display b) (hranked : xs.Pairwise Ranked) :
    ys.Pairwise fun a b => display a < display b ∨ a = b := by
  induction h with
  | nil => exact .nil
  | @cons x y xs ys hxy hall ih =>
    obtain ⟨hle, hsorted⟩ := List.pairwise_cons.mp hsorted
    obtain ⟨hrank, hranked⟩ := List.pairwise_cons.mp hranked
    refine List.pairwise_cons.mpr ⟨fun b hb => ?_, ih hsorted hranked⟩
    obtain ⟨a, ha, hab⟩ := exists_of_mem_listed hall hb
    exact (hrank a ha).listed hxy hab (hle a ha)

theorem inOrder_reordered {xs zs ys : List Value} (hranked : xs.Pairwise Ranked)
    (hperm : xs.Perm zs) (h : AllReordered zs ys) :
    AllReordered (inOrder xs) (inOrder ys) := by
  obtain ⟨ys', hall, hys⟩ :=
    List.perm_comp_forall₂ ((inOrder_perm xs).trans hperm) (allReordered_iff.mp h)
  have hinorder : (inOrder xs).Pairwise Ranked :=
    hranked.perm (inOrder_perm xs).symm Ranked.symm
  have hlisted := pairwise_of_ranked hall (pairwise_inOrder xs) hinorder
  have htold : ∀ a ∈ ys', ∀ b ∈ ys', display a = display b → a = b := by
    have hne : ys'.Pairwise fun a b => display a = display b → a = b :=
      hlisted.imp fun hab heq => hab.resolve_left fun hlt => hlt.ne heq
    have : Std.Symm fun a b : Value => display a = display b → a = b :=
      ⟨fun a b h heq => (h heq.symm).symm⟩
    exact fun a ha b hb => hne.forall_of_forall (fun _ _ _ => rfl) ha hb
  rw [inOrder_eq_of_perm hys (hlisted.imp fun hab => ?_) htold]
  · exact allReordered_iff.mpr hall
  · rcases hab with hlt | rfl
    · exact hlt.le
    · exact le_rfl

theorem map_eq_of_reordered {α : Type} {f : Value → α} {xs ys : List Value}
    (h : AllReordered xs ys) (hf : ∀ x ∈ xs, ∀ y, Reordered x y → f x = f y) :
    xs.map f = ys.map f := by
  induction allReordered_iff.mp h with
  | nil => rfl
  | @cons x y xs ys hxy hall ih =>
    rw [List.map_cons, List.map_cons, hf x List.mem_cons_self y hxy,
      ih (allReordered_iff.mpr hall) fun x hx => hf x (List.mem_cons_of_mem _ hx)]

theorem sortKeyed_eq_of_reordered {α : Type} {f : Value → α} {xs zs ys : List Value}
    (hranked : xs.Pairwise Ranked) (hperm : xs.Perm zs) (h : AllReordered zs ys)
    (hf : ∀ x ∈ xs, ∀ y, Reordered x y → f x = f y) :
    sortKeyed (xs.map fun x => (display x, f x)) = sortKeyed (ys.map fun x => (display x, f x)) := by
  rw [sortKeyed_display, sortKeyed_display]
  exact map_eq_of_reordered (inOrder_reordered hranked hperm h) fun x hx =>
    hf x ((inOrder_perm xs).mem_iff.mp hx)

/-! ### Normal forms and literals -/

mutual

theorem normal_eq_of_reordered : ∀ v : Value, v.IsOrderly → ∀ w, Reordered v w →
    v.normal = w.normal
  | .set xs, hv, w, h => by
    cases h with
    | refl => rfl
    | set hperm hall =>
      rw [normal, normal, normalKeyed_eq_map, normalKeyed_eq_map,
        sortKeyed_eq_of_reordered hv.2 hperm hall (normal_eq_of_mem xs hv.1)]
  | .frozenset xs, hv, w, h => by
    cases h with
    | refl => rfl
    | frozenset hperm hall =>
      rw [normal, normal, normalKeyed_eq_map, normalKeyed_eq_map,
        sortKeyed_eq_of_reordered hv.2 hperm hall (normal_eq_of_mem xs hv.1)]
  | .list xs, hv, w, h => by
    cases h with
    | refl => rfl
    | list hall =>
      rw [normal, normal, normalAll_eq_map, normalAll_eq_map,
        map_eq_of_reordered hall (normal_eq_of_mem xs hv)]
  | .tuple xs, hv, w, h => by
    cases h with
    | refl => rfl
    | tuple hall =>
      rw [normal, normal, normalAll_eq_map, normalAll_eq_map,
        map_eq_of_reordered hall (normal_eq_of_mem xs hv)]
  | .map es, hv, w, h => by
    cases h with
    | refl => rfl
    | map hall => rw [normal, normal, normalEntries_eq_of_reordered es hv _ hall]
  | .null, _, _, .refl _ | .bool _, _, _, .refl _ | .int _, _, _, .refl _
  | .float _, _, _, .refl _ | .nan _, _, _, .refl _ | .text _, _, _, .refl _
  | .operator _, _, _, .refl _ | .join _, _, _, .refl _ | .bytes _, _, _, .refl _
  | .buffer _, _, _, .refl _ | .date _ _, _, _, .refl _ | .moment _ _, _, _, .refl _
  | .loop _, _, _, .refl _ | .foreign _ _, _, _, .refl _ => rfl

theorem normal_eq_of_mem : ∀ xs : List Value, AllOrderly xs → ∀ x ∈ xs, ∀ y, Reordered x y →
    x.normal = y.normal
  | x :: _, ⟨hx, _⟩, _, .head _, y, h => normal_eq_of_reordered x hx y h
  | _ :: xs, ⟨_, hxs⟩, z, .tail _ hz, y, h => normal_eq_of_mem xs hxs z hz y h

theorem normalEntries_eq_of_reordered : ∀ es : List (Value × Value), EntriesOrderly es →
    ∀ fs, EntriesReordered es fs → normalEntries es = normalEntries fs
  | [], _, _, .nil => rfl
  | (_, v) :: es, ⟨hv, hes⟩, _, .cons h hs => by
    rw [normalEntries, normalEntries, normal_eq_of_reordered v hv _ h,
      normalEntries_eq_of_reordered es hes _ hs]

end

theorem literalAll_eq_map (xs : List Value) : literalAll xs = xs.map literal := by
  induction xs with
  | nil => rfl
  | cons x xs ih => rw [literalAll, ih, List.map_cons]

mutual

theorem literal_eq_of_reordered : ∀ v : Value, v.IsOrderly → v.isBasic = true →
    ∀ w, Reordered v w → v.literal = w.literal
  | .set xs, hv, hb, w, h => by
    cases h with
    | refl => rfl
    | set hperm hall =>
      rw [literal, literal, literalKeyed_eq_map, literalKeyed_eq_map,
        sortKeyed_eq_of_reordered hv.2 hperm hall (literal_eq_of_mem xs hv.1 hb)]
  | .frozenset xs, hv, hb, w, h => by
    cases h with
    | refl => rfl
    | frozenset hperm hall =>
      rw [literal, literal, literalKeyed_eq_map, literalKeyed_eq_map,
        sortKeyed_eq_of_reordered hv.2 hperm hall (literal_eq_of_mem xs hv.1 hb)]
  | .list xs, hv, hb, w, h => by
    cases h with
    | refl => rfl
    | list hall =>
      rw [literal, literal, literalAll_eq_map, literalAll_eq_map,
        map_eq_of_reordered hall (literal_eq_of_mem xs hv hb)]
  | .tuple xs, hv, hb, w, h => by
    cases h with
    | refl => rfl
    | tuple hall =>
      rw [literal, literal, literalAll_eq_map, literalAll_eq_map,
        map_eq_of_reordered hall (literal_eq_of_mem xs hv hb)]
  | .null, _, _, _, .refl _ | .bool _, _, _, _, .refl _ | .int _, _, _, _, .refl _
  | .float _, _, _, _, .refl _ | .nan _, _, _, _, .refl _ | .text _, _, _, _, .refl _
  | .operator _, _, _, _, .refl _ | .join _, _, _, _, .refl _ | .bytes _, _, _, _, .refl _
  | .buffer _, _, _, _, .refl _ | .date _ _, _, _, _, .refl _ | .moment _ _, _, _, _, .refl _
  | .loop _, _, _, _, .refl _ | .foreign _ _, _, _, _, .refl _ => rfl

theorem literal_eq_of_mem : ∀ xs : List Value, AllOrderly xs → areBasic xs = true →
    ∀ x ∈ xs, ∀ y, Reordered x y → x.literal = y.literal
  | x :: _, ⟨hx, _⟩, hb, _, .head _, y, h =>
    literal_eq_of_reordered x hx (Bool.and_eq_true_iff.mp hb).1 y h
  | _ :: xs, ⟨_, hxs⟩, hb, z, .tail _ hz, y, h =>
    literal_eq_of_mem xs hxs (Bool.and_eq_true_iff.mp hb).2 z hz y h

end

/-! ### Values that cannot be kept or written -/

theorem areLegible_eq_all (xs : List Value) : areLegible xs = xs.all isLegible := by
  induction xs with
  | nil => rfl
  | cons x xs ih => rw [areLegible, ih, List.all_cons]

mutual

theorem checks_eq_of_reordered : ∀ {v w : Value}, Reordered v w →
    v.isEndless = w.isEndless ∧ v.isLegible = w.isLegible ∧ v.obstacle? = w.obstacle?
  | _, _, .refl _ => ⟨rfl, rfl, rfl⟩
  | _, _, .list h | _, _, .tuple h => allChecks_eq_of_reordered h
  | _, _, @Reordered.set xs zs ys hperm h | _, _, @Reordered.frozenset xs zs ys hperm h => by
    obtain ⟨hends, hlegible, -⟩ := allChecks_eq_of_reordered h
    have hany : anyEndless xs = anyEndless ys := by
      rw [← hends, anyEndless_eq_any, anyEndless_eq_any, hperm.any_eq]
    have hall : areLegible xs = areLegible ys := by
      rw [← hlegible, areLegible_eq_all, areLegible_eq_all, hperm.all_eq]
    exact ⟨hany, hall, by rw [obstacle?, obstacle?, hany, hall]⟩
  | _, _, .map h => entryChecks_eq_of_reordered h

theorem allChecks_eq_of_reordered : ∀ {xs ys : List Value}, AllReordered xs ys →
    anyEndless xs = anyEndless ys ∧ areLegible xs = areLegible ys ∧
      firstObstacle? xs = firstObstacle? ys
  | _, _, .nil => ⟨rfl, rfl, rfl⟩
  | _, _, .cons h hs => by
    obtain ⟨hends, hlegible, hobstacle⟩ := checks_eq_of_reordered h
    obtain ⟨hends', hlegible', hobstacle'⟩ := allChecks_eq_of_reordered hs
    exact ⟨by rw [anyEndless, anyEndless, hends, hends'],
      by rw [areLegible, areLegible, hlegible, hlegible'],
      by rw [firstObstacle?, firstObstacle?, hobstacle, hobstacle']⟩

theorem entryChecks_eq_of_reordered : ∀ {es fs : List (Value × Value)}, EntriesReordered es fs →
    anyEntryEndless es = anyEntryEndless fs ∧ entriesLegible es = entriesLegible fs ∧
      obstacleOfEntries? es = obstacleOfEntries? fs
  | _, _, .nil => ⟨rfl, rfl, rfl⟩
  | _, _, .cons h hs => by
    obtain ⟨hends, hlegible, hobstacle⟩ := checks_eq_of_reordered h
    obtain ⟨hends', hlegible', hobstacle'⟩ := entryChecks_eq_of_reordered hs
    exact ⟨by rw [anyEntryEndless, anyEntryEndless, hends, hends'],
      by rw [entriesLegible, entriesLegible, hlegible, hlegible'],
      by rw [obstacleOfEntries?, obstacleOfEntries?, hobstacle, hobstacle']⟩

end

theorem literalText_eq_of_reordered {v w : Value} (h : Reordered v w) (hv : v.IsOrderly)
    (hb : v.isBasic = true) : v.literalText = w.literalText := by
  rw [literalText, written, (checks_eq_of_reordered h).2.1, literal_eq_of_reordered v hv hb w h]
  rfl

end Value

namespace Store
open Value

theorem argument_normal_eq_of_reordered {v w : Value} (h : Reordered v w) (hv : v.IsOrderly) :
    Argument.normal (.value v) = Argument.normal (.value w) := by
  rw [Argument.normal, (checks_eq_of_reordered h).2.2, normal_eq_of_reordered v hv w h]
  rfl

/-- The order in which sets list their items does not show in an expression or a literal, as long as
the order of what the items of a set display is the same for all listings, which it is where none of
them lists several items itself. -/
theorem newExpression_eq_of_reordered {v w : Value} (h : Reordered v w) (hv : v.IsOrderly) :
    v.normal = w.normal ∧
    (∀ (s : Store) (key operator : Argument) (given : Hooks),
      s.newExpression key operator (.value v) given =
        s.newExpression key operator (.value w) given) ∧
    (v.isBasic = true → v.literalText = w.literalText) := by
  refine ⟨normal_eq_of_reordered v hv w h, fun s key operator given => ?_,
    literalText_eq_of_reordered h hv⟩
  unfold newExpression
  rw [argument_normal_eq_of_reordered h hv]

theorem exists_display_frozenset (xs : List Value) :
    ∃ rest, (display (.frozenset xs)).toList = 'f' :: rest := by
  by_cases hxs : xs = []
  · rw [hxs]
    exact ⟨"rozenset()".toList, by decide⟩
  · exact ⟨_, Shown.toList_display_frozenset hxs⟩

theorem precedes_frozenset {x : Value} (hx : x.IsSteady) (c : Char) (cs : List Char)
    (hc : (display x).toList = c :: cs) (hlt : c < 'f') (xs : List Value) :
    Precedes x (.frozenset xs) := by
  intro x' y' hx' hy'
  obtain ⟨ys, rfl⟩ : ∃ ys, y' = .frozenset ys := by
    cases hy' with
    | refl => exact ⟨xs, rfl⟩
    | frozenset => exact ⟨_, rfl⟩
  obtain ⟨rest, hrest⟩ := exists_display_frozenset ys
  rw [← eq_of_steady hx' hx, String.lt_iff_toList_lt, hc, hrest]
  exact List.cons_lt_cons_iff.mpr (.inl hlt)

/-- A list of a set one of whose items can be listed in two orders. -/
theorem newExpression_eq_of_reordered_pair :
    let v : Value := .list [.set [.frozenset [.int 0, .int 8], .text "b", .int 10]]
    let w : Value := .list [.set [.int 10, .frozenset [.int 8, .int 0], .text "b"]]
    Reordered v w ∧ v.IsOrderly ∧ v.normal = w.normal ∧ v.literalText = w.literalText := by
  intro v w
  have h : Reordered v w :=
    .list (.cons (.set (.trans (.cons _ (.swap _ _ _)) (.swap _ _ _))
      (.cons (.refl _) (.cons (.frozenset (.swap _ _ _) (.cons (.refl _) (.cons (.refl _) .nil)))
        (.cons (.refl _) .nil)))) .nil)
  have hpair : AllSteady [.int 0, .int 8] := ⟨trivial, trivial, trivial⟩
  have hrest : AllSteady [.text "b", .int 10] := ⟨trivial, trivial, trivial⟩
  have hinner : (Value.frozenset [.int 0, .int 8]).IsOrderly :=
    ⟨allOrderly_of_steady _ hpair, pairwise_ranked_of_steady hpair (.inl rfl)⟩
  have hranked : ∀ y ∈ [.text "b", .int 10], Ranked (.frozenset [.int 0, .int 8]) y := by
    intro y hy
    rcases List.mem_pair.mp hy with rfl | rfl
    · exact .inr (.inl (precedes_frozenset hrest.1 '\'' ['b', '\''] (by decide) (by decide) _))
    · exact .inr (.inl (precedes_frozenset hrest.2.1 '1' ['0'] (by decide) (by decide) _))
  have hv : v.IsOrderly :=
    ⟨⟨⟨hinner, allOrderly_of_steady _ hrest⟩,
      .cons hranked (pairwise_ranked_of_steady hrest (.inl rfl))⟩, trivial⟩
  have hb : v.isBasic = true := by rfl
  obtain ⟨hnormal, -, hliteral⟩ := newExpression_eq_of_reordered h hv
  exact ⟨h, hv, hnormal, hliteral hb⟩

/-- Two sets in a set, one of which can be listed in two orders. -/
theorem normal_ne_of_reordered :
    let v : Value := .set [.frozenset [.int 0, .int 8], .frozenset [.int 5]]
    let w : Value := .set [.frozenset [.int 8, .int 0], .frozenset [.int 5]]
    Reordered v w ∧ v.isBasic = true ∧
      v.normal = .list [.list [.int 0, .int 8], .list [.int 5]] ∧
      w.normal = .list [.list [.int 5], .list [.int 0, .int 8]] ∧
      v.literal = "((0,8),(5))" ∧ w.literal = "((5),(0,8))" := by
  intro v w
  have h : Reordered v w :=
    .set (.refl _) (.cons (.frozenset (.swap _ _ _) (.cons (.refl _) (.cons (.refl _) .nil)))
      (.cons (.refl _) .nil))
  have hnumbers : display (.int 0) ≤ display (.int 8) := by decide
  have hnumbers' : ¬display (.int 8) ≤ display (.int 0) := by decide
  have hsets : display (.frozenset [.int 0, .int 8]) ≤ display (.frozenset [.int 5]) := by decide
  have hsets' : ¬display (.frozenset [.int 8, .int 0]) ≤ display (.frozenset [.int 5]) := by decide
  refine ⟨h, rfl, ?_, ?_, ?_, ?_⟩
  · simp only [v, normal, normalKeyed, sortKeyed_pair, sortKeyed_singleton, if_pos hnumbers,
      if_pos hsets]
  · simp only [w, normal, normalKeyed, sortKeyed_pair, sortKeyed_singleton, if_neg hnumbers',
      if_neg hsets']
  · simp only [v, literal, literalKeyed, sortKeyed_pair, sortKeyed_singleton, if_pos hnumbers,
      if_pos hsets]
    rfl
  · simp only [w, literal, literalKeyed, sortKeyed_pair, sortKeyed_singleton, if_neg hnumbers',
      if_neg hsets']
    rfl

end Store

end FilterTree
