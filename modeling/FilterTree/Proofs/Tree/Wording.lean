import FilterTree.Tree.Basic
import FilterTree.Proofs.Text.Numeral

/-! Trees and their texts, for any way to write leaves. Where the text of a leaf can be told from all
that may follow it, the text of a condition tells its shape, its leaves, and the joins between its
slots. The join after the last slot of a condition never shows. -/

namespace FilterTree.Tree

/-! ### Writing -/

def inSlot : Tree → String → String
  | .leaf _ _ _, s => s
  | .branch _ _ _, s => "(" ++ s ++ ")"

section
variable (write : Hooks → Context → String)

mutual

/-- The text of a tree, given those of its leaves. -/
def wording : Tree → String
  | .leaf _ h c => write h c
  | .branch _ _ slots => joinSlots (wordings slots)

def wordings : List (Join × Tree) → List (Join × String)
  | [] => []
  | (j, t) :: rest => (j, t.inSlot (wording t)) :: wordings rest

end

end

mutual

theorem AllLeaves.mono {P Q : Hooks → Context → Prop} (h : ∀ {l c}, P l c → Q l c) :
    ∀ {t : Tree}, t.AllLeaves P → t.AllLeaves Q
  | .leaf _ _ _, ht => h ht
  | .branch _ _ _, ht => AllLeavesOfSlots.mono h ht

theorem AllLeavesOfSlots.mono {P Q : Hooks → Context → Prop} (h : ∀ {l c}, P l c → Q l c) :
    ∀ {slots : List (Join × Tree)}, AllLeavesOfSlots P slots → AllLeavesOfSlots Q slots
  | [], _ => trivial
  | _ :: _, ht => ⟨AllLeaves.mono h ht.1, AllLeavesOfSlots.mono h ht.2⟩

end

section
variable (R : Hooks → Context → Hooks → Context → Prop)

mutual

/-- Two trees of one shape, with the same joins between slots and related leaves in the same
places. -/
inductive Alike : Tree → Tree → Prop where
  | leaf {i k : NodeId} {h l : Hooks} {c d : Context} :
      R h c l d → Alike (.leaf i h c) (.leaf k l d)
  | branch {i k : NodeId} {h l : Hooks} {xs ys : List (Join × Tree)} :
      AlikeSlots xs ys → Alike (.branch i h xs) (.branch k l ys)

inductive AlikeSlots : List (Join × Tree) → List (Join × Tree) → Prop where
  | nil : AlikeSlots [] []
  | last {j k : Join} {t u : Tree} : Alike t u → AlikeSlots [(j, t)] [(k, u)]
  | cons {j : Join} {t u : Tree} {x y : Join × Tree} {xs ys : List (Join × Tree)} :
      Alike t u → AlikeSlots (x :: xs) (y :: ys) →
      AlikeSlots ((j, t) :: x :: xs) ((j, u) :: y :: ys)

end

end

/-! ### Reading -/

abbrev Ends (rest : List Char) : Prop :=
  BeginsWithout (· != ')') rest

inductive AfterPayload : List Char → Prop
  | ends {rest : List Char} (h : Ends rest) : AfterPayload rest
  | join (j : Join) (rest : List Char) : AfterPayload (' ' :: (j.name.toList ++ ' ' :: rest))

def joinTail (write : Hooks → Context → String) (j : Join) : List (Join × Tree) → List Char
  | [] => []
  | rest => ' ' :: (j.name.toList ++ ' ' :: (joinSlots (wordings write rest)).toList)

/-- The texts of leaves of two kinds. None of them can be taken for the beginning or the end of a
condition, and what follows them tells where they end. -/
structure Distinct (f g : Hooks → Context → String) (P Q : Hooks → Context → Prop)
    (R : Hooks → Context → Hooks → Context → Prop) : Prop where
  opens_left : ∀ {h c}, P h c → ∃ ch rest, (f h c).toList = ch :: rest ∧ ch ≠ '(' ∧ ch ≠ ')'
  opens_right : ∀ {h c}, Q h c → ∃ ch rest, (g h c).toList = ch :: rest ∧ ch ≠ '(' ∧ ch ≠ ')'
  cancel : ∀ {h c l d}, P h c → Q l d → ∀ {r r'}, AfterPayload r → AfterPayload r' →
    (f h c).toList ++ r = (g l d).toList ++ r' → R h c l d ∧ r = r'

section
variable {f g : Hooks → Context → String} {P Q : Hooks → Context → Prop}
variable {R : Hooks → Context → Hooks → Context → Prop}

theorem toList_joinSlots_cons (j : Join) (t : Tree) (rest : List (Join × Tree)) :
    (joinSlots (wordings f ((j, t) :: rest))).toList =
      (t.inSlot (t.wording f)).toList ++ joinTail f j rest := by
  cases rest with
  | nil => simp [wordings, joinSlots, joinTail]
  | cons x rest => simp [wordings, joinSlots, joinTail]

theorem joinSlots_wordings_cons (j : Join) (t : Tree) (x : Join × Tree) (rest : List (Join × Tree)) :
    joinSlots (wordings f ((j, t) :: x :: rest)) =
      t.inSlot (t.wording f) ++ " " ++ j.name ++ " " ++ joinSlots (wordings f (x :: rest)) :=
  rfl

theorem afterPayload_joinTail (j : Join) (rest : List (Join × Tree)) {r : List Char} (hr : Ends r) :
    AfterPayload (joinTail f j rest ++ r) := by
  cases rest with
  | nil => exact .ends hr
  | cons x rest =>
    simp only [joinTail, List.cons_append, List.append_assoc]
    exact .join j _

theorem head?_inSlot (hf : ∀ {h c}, P h c → ∃ ch rest, (f h c).toList = ch :: rest ∧
    ch ≠ '(' ∧ ch ≠ ')') {t : Tree} (ht : t.AllLeaves P) :
    ∃ ch rest, (t.inSlot (t.wording f)).toList = ch :: rest ∧ ch ≠ ')' ∧
      (ch = '(' ↔ t.isBranch = true) := by
  cases t with
  | leaf i h c =>
    obtain ⟨ch, rest, hch, hopen, hclose⟩ := hf ht
    exact ⟨ch, rest, hch, hclose, by simp [hopen, isBranch]⟩
  | branch i h slots =>
    exact ⟨'(', (wording f (.branch i h slots)).toList ++ [')'], by simp [inSlot], by decide,
      by simp [isBranch]⟩

theorem not_ends_slots (hf : ∀ {h c}, P h c → ∃ ch rest, (f h c).toList = ch :: rest ∧
    ch ≠ '(' ∧ ch ≠ ')') {j : Join} {t : Tree} {rest : List (Join × Tree)} (ht : t.AllLeaves P)
    (r : List Char) : ¬ Ends ((joinSlots (wordings f ((j, t) :: rest))).toList ++ r) := by
  intro hends
  obtain ⟨ch, s, hs, hclose, -⟩ := head?_inSlot hf ht
  rw [toList_joinSlots_cons, hs] at hends
  have hhead := hends ch rfl
  simp [hclose] at hhead

theorem joinTail_cancel {j k : Join} {x y : Join × Tree} {xs ys : List (Join × Tree)}
    {r r' : List Char} (h : joinTail f j (x :: xs) ++ r = joinTail g k (y :: ys) ++ r') :
    j = k ∧ (joinSlots (wordings f (x :: xs))).toList ++ r =
      (joinSlots (wordings g (y :: ys))).toList ++ r' := by
  cases j <;> cases k <;> simp_all [joinTail, Join.name]

mutual

theorem alike_of_inSlot (hd : Distinct f g P Q R) : ∀ t u : Tree, t.AllLeaves P → u.AllLeaves Q →
    ∀ r r' : List Char, AfterPayload r → AfterPayload r' →
    (t.inSlot (t.wording f)).toList ++ r = (u.inSlot (u.wording g)).toList ++ r' →
    Alike R t u ∧ r = r'
  | .leaf i h c, .leaf k l d, ht, hu, r, r', hr, hr', heq => by
    obtain ⟨hleaf, hrest⟩ := hd.cancel ht hu hr hr' heq
    exact ⟨.leaf hleaf, hrest⟩
  | .branch i h xs, .branch k l ys, ht, hu, r, r', _, _, heq => by
    have hinner : (joinSlots (wordings f xs)).toList ++ ')' :: r =
        (joinSlots (wordings g ys)).toList ++ ')' :: r' := by
      simpa [inSlot, wording] using heq
    obtain ⟨hslots, hrest⟩ := alikeSlots_of_wordings hd xs ys ht hu (')' :: r) (')' :: r')
      (.cons rfl r) (.cons rfl r') hinner
    exact ⟨.branch hslots, (List.cons.inj hrest).2⟩
  | .leaf i h c, .branch k l ys, ht, hu, _, _, _, _, heq => by
    obtain ⟨ch, s, hs, hopen, -⟩ := hd.opens_left ht
    simp [inSlot, wording, hs, hopen] at heq
  | .branch i h xs, .leaf k l d, ht, hu, _, _, _, _, heq => by
    obtain ⟨ch, s, hs, hopen, -⟩ := hd.opens_right hu
    simp [inSlot, wording, hs, hopen.symm] at heq

theorem alikeSlots_of_wordings (hd : Distinct f g P Q R) : ∀ xs ys : List (Join × Tree),
    AllLeavesOfSlots P xs → AllLeavesOfSlots Q ys → ∀ r r' : List Char, Ends r → Ends r' →
    (joinSlots (wordings f xs)).toList ++ r = (joinSlots (wordings g ys)).toList ++ r' →
    AlikeSlots R xs ys ∧ r = r'
  | [], [], _, _, r, r', _, _, heq => ⟨.nil, heq⟩
  | [], (k, u) :: ys, _, hu, r, r', hr, _, heq => by
    have hr_eq : r = (joinSlots (wordings g ((k, u) :: ys))).toList ++ r' := heq
    rw [hr_eq] at hr
    exact absurd hr (not_ends_slots hd.opens_right hu.1 r')
  | (j, t) :: xs, [], ht, _, r, r', _, hr', heq => by
    have hr_eq : (joinSlots (wordings f ((j, t) :: xs))).toList ++ r = r' := heq
    rw [← hr_eq] at hr'
    exact absurd hr' (not_ends_slots hd.opens_left ht.1 r)
  | (j, t) :: xs, (k, u) :: ys, ht, hu, r, r', hr, hr', heq => by
    rw [toList_joinSlots_cons, toList_joinSlots_cons, List.append_assoc, List.append_assoc] at heq
    obtain ⟨halike, hrest⟩ := alike_of_inSlot hd t u ht.1 hu.1 _ _ (afterPayload_joinTail j xs hr)
      (afterPayload_joinTail k ys hr') heq
    cases xs with
    | nil =>
      cases ys with
      | nil => exact ⟨.last halike, hrest⟩
      | cons y ys =>
        -- one condition ends where the other one goes on with a blank
        have hr_eq : r = joinTail g k (y :: ys) ++ r' := hrest
        rw [hr_eq] at hr
        cases hr ' ' rfl
    | cons x xs =>
      cases ys with
      | nil =>
        have hr_eq : joinTail f j (x :: xs) ++ r = r' := hrest
        rw [← hr_eq] at hr'
        cases hr' ' ' rfl
      | cons y ys =>
        obtain ⟨rfl, hnext⟩ := joinTail_cancel hrest
        obtain ⟨hslots, hr⟩ :=
          alikeSlots_of_wordings hd (x :: xs) (y :: ys) ht.2 hu.2 r r' hr hr' hnext
        exact ⟨.cons halike hslots, hr⟩

end

mutual

theorem wording_eq_of_alike (hR : ∀ {h c l d}, R h c l d → f h c = g l d) :
    ∀ {t u : Tree}, Alike R t u → t.inSlot (t.wording f) = u.inSlot (u.wording g)
  | _, _, .leaf hleaf => hR hleaf
  | _, _, .branch hslots => by
    simp only [inSlot, wording]
    rw [joinSlots_eq_of_alikeSlots hR hslots]

theorem joinSlots_eq_of_alikeSlots (hR : ∀ {h c l d}, R h c l d → f h c = g l d) :
    ∀ {xs ys : List (Join × Tree)}, AlikeSlots R xs ys →
      joinSlots (wordings f xs) = joinSlots (wordings g ys)
  | _, _, .nil => rfl
  | _, _, .last halike => wording_eq_of_alike hR halike
  | _, _, .cons halike hslots => by
    rw [joinSlots_wordings_cons, joinSlots_wordings_cons, wording_eq_of_alike hR halike,
      joinSlots_eq_of_alikeSlots hR hslots]

end

end

end FilterTree.Tree
