import FilterTree.Proofs.Yaml.Data

/-! What nodes stand for: a scalar for the value that is read from it, a collection for what it makes
of the values of other nodes. -/

namespace FilterTree.Yaml

/-- A text stands for values with a property under a tag for scalars, wherever it stands. They are
equal to themselves, as keys have to be. -/
def IsReading (tag text : String) (P : Value → Prop) : Prop :=
  Scalar.tags.contains tag = true ∧ ∀ serial, ∃ v, Scalar.read serial tag text = .ok v ∧
    v.same true v = true ∧ P v

theorem IsReading.mono {tag text : String} {P Q : Value → Prop} (h : IsReading tag text P)
    (hPQ : ∀ v, P v → Q v) : IsReading tag text Q := by
  refine ⟨h.1, fun serial => ?_⟩
  obtain ⟨v, hread, hsame, hv⟩ := h.2 serial
  exact ⟨v, hread, hsame, hPQ v hv⟩

def IsScalar (nodes : Array Node) (n : Nat) (v : Value) : Prop :=
  ∃ tag text, nodes[n]? = some ⟨tag, .scalar text⟩ ∧ Scalar.tags.contains tag = true ∧
    Scalar.read n tag text = .ok v ∧ v.same true v = true

theorem IsScalar.isAtom {nodes : Array Node} {n : Nat} {v : Value} (h : IsScalar nodes n v) :
    v.IsAtom := by
  obtain ⟨tag, text, -, -, hread, -⟩ := h
  exact Scalar.isAtom_of_read hread

theorem IsScalar.lt_size {nodes : Array Node} {n : Nat} {v : Value} (h : IsScalar nodes n v) :
    n < nodes.size := by
  obtain ⟨tag, text, hnode, -⟩ := h
  exact (Array.getElem?_eq_some_iff.mp hnode).1

theorem IsScalar.same_self {nodes : Array Node} {n : Nat} {v : Value} (h : IsScalar nodes n v) :
    v.same true v = true := by
  obtain ⟨tag, text, -, -, -, hsame⟩ := h
  exact hsame

theorem IsScalar.unique {nodes : Array Node} {n : Nat} {v w : Value} (hv : IsScalar nodes n v)
    (hw : IsScalar nodes n w) : v = w := by
  obtain ⟨tag, text, hnode, -, hread, -⟩ := hv
  obtain ⟨tag', text', hnode', -, hread', -⟩ := hw
  cases hnode.symm.trans hnode'
  exact Except.ok.inj (hread.symm.trans hread')

def IsBelow (nodes : Array Node) (n m : Nat) : Prop :=
  n < m ∨ ∃ v, IsScalar nodes m v

mutual

/-- A node of a table stands for a value. Of equal keys a mapping has the first one, with the last
value. -/
inductive StandsFor (nodes : Array Node) : Nat → Value → Prop
  | scalar {n : Nat} {v : Value} (h : IsScalar nodes n v) : StandsFor nodes n v
  | list {n : Nat} {ms : List Nat} {vs : List Value}
      (hnode : nodes[n]? = some ⟨Tags.seq, .sequence ms⟩) (h : StandForAll nodes n ms vs) :
      StandsFor nodes n (.list vs)
  | map {n : Nat} {es : List (Nat × Nat)} {ps : List (Value × Value)}
      (hnode : nodes[n]? = some ⟨Tags.map, .mapping es⟩) (h : StandForEntries nodes n es ps) :
      StandsFor nodes n (.mapOf ps)

inductive StandForAll (nodes : Array Node) : Nat → List Nat → List Value → Prop
  | nil {n : Nat} : StandForAll nodes n [] []
  | cons {n m : Nat} {v : Value} {ms : List Nat} {vs : List Value} (hm : IsBelow nodes n m)
      (hv : StandsFor nodes m v) (h : StandForAll nodes n ms vs) :
      StandForAll nodes n (m :: ms) (v :: vs)

inductive StandForEntries (nodes : Array Node) :
    Nat → List (Nat × Nat) → List (Value × Value) → Prop
  | nil {n : Nat} : StandForEntries nodes n [] []
  | cons {n i m : Nat} {k v : Value} {es : List (Nat × Nat)} {ps : List (Value × Value)}
      (hk : IsScalar nodes i k) (hm : IsBelow nodes n m) (hv : StandsFor nodes m v)
      (h : StandForEntries nodes n es ps) : StandForEntries nodes n ((i, m) :: es) ((k, v) :: ps)

end

variable {nodes : Array Node}

mutual

theorem StandsFor.isStored {n : Nat} {v : Value} (h : StandsFor nodes n v) : v.IsStored :=
  match h with
  | .scalar h => h.isAtom.isStored
  | .list _ h => h.areStored
  | .map _ h => by
    obtain ⟨fs, hmap, hfs⟩ :=
      Value.exists_mapOf (Value.entriesStored_iff.mp h.entriesStored)
    rw [hmap]
    exact Value.entriesStored_iff.mpr hfs

theorem StandForAll.areStored {n : Nat} {ms : List Nat} {vs : List Value}
    (h : StandForAll nodes n ms vs) : Value.AreStored vs :=
  match h with
  | .nil => trivial
  | .cons _ hv h => ⟨hv.isStored, h.areStored⟩

theorem StandForEntries.entriesStored {n : Nat} {es : List (Nat × Nat)}
    {ps : List (Value × Value)} (h : StandForEntries nodes n es ps) : Value.EntriesStored ps :=
  match h with
  | .nil => trivial
  | .cons hk _ hv h => ⟨hk.isAtom, hv.isStored, h.entriesStored⟩

end

def Gives (P : Value → Prop) (nodes : Array Node) (n : Nat) : Prop :=
  ∃ v, StandsFor nodes n v ∧ P v

def GivesScalar (P : Value → Prop) (nodes : Array Node) (n : Nat) : Prop :=
  ∃ v, IsScalar nodes n v ∧ P v

variable {n : Nat}

theorem GivesScalar.gives {P : Value → Prop} (h : GivesScalar P nodes n) : Gives P nodes n := by
  obtain ⟨v, hscalar, hv⟩ := h
  exact ⟨v, .scalar hscalar, hv⟩

def IsRun (nodes : Array Node) (n : Nat) (w : List Node) : Prop :=
  ∃ before after, nodes.toList = before ++ (w ++ after) ∧ before.length = n

namespace IsRun
variable {v w : List Node}

theorem get {node : Node} (h : IsRun nodes n (node :: w)) : nodes[n]? = some node := by
  obtain ⟨before, after, h, rfl⟩ := h
  rw [← Array.getElem?_toList, h]
  simp

theorem tail {node : Node} (h : IsRun nodes n (node :: w)) : IsRun nodes (n + 1) w := by
  obtain ⟨before, after, h, rfl⟩ := h
  exact ⟨before ++ [node], after, by simpa using h, by simp⟩

theorem left (h : IsRun nodes n (v ++ w)) : IsRun nodes n v := by
  obtain ⟨before, after, h, rfl⟩ := h
  exact ⟨before, w ++ after, by simpa using h, rfl⟩

theorem right (h : IsRun nodes n (v ++ w)) : IsRun nodes (n + v.length) w := by
  obtain ⟨before, after, h, rfl⟩ := h
  exact ⟨before ++ v, after, by simpa using h, by simp⟩

theorem get_at (h : IsRun nodes n w) {i : Nat} (hi : i < w.length) : nodes[n + i]? = w[i]? := by
  obtain ⟨before, after, h, rfl⟩ := h
  rw [← Array.getElem?_toList, h, List.getElem?_append_right (Nat.le_add_right _ _),
    Nat.add_sub_cancel_left, List.getElem?_append_left hi]

end IsRun

def Keeps (nodes table : Array Node) : Prop :=
  ∀ n v, IsScalar nodes n v → IsScalar table n v

theorem IsScalar.of_getElem? {table : Array Node} {v : Value} (h : IsScalar nodes n v)
    (heq : table[n]? = nodes[n]?) : IsScalar table n v := by
  obtain ⟨tag, text, hnode, hread⟩ := h
  exact ⟨tag, text, heq.trans hnode, hread⟩

theorem Keeps.append {table : Array Node} {w : List Node} (h : Keeps nodes table)
    (hrun : IsRun table nodes.size w) : Keeps (nodes ++ w.toArray) table := by
  intro n v hscalar
  obtain hn | hn := Nat.lt_or_ge n nodes.size
  · exact h n v (hscalar.of_getElem? (by rw [Array.getElem?_append_left hn]))
  · obtain ⟨i, rfl⟩ := Nat.exists_eq_add_of_le hn
    have hget : (nodes ++ w.toArray)[nodes.size + i]? = w[i]? := by
      rw [Array.getElem?_append_right hn, Nat.add_sub_cancel_left, List.getElem?_toArray]
    refine hscalar.of_getElem? ?_
    obtain ⟨tag, text, hnode, -⟩ := hscalar
    rw [hget] at hnode ⊢
    exact hrun.get_at (List.getElem?_eq_some_iff.mp hnode).1

end FilterTree.Yaml
