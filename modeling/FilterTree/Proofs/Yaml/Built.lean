import Mathlib.Data.List.Forall2
import Mathlib.Data.List.Nodup
import Mathlib.Data.List.Perm.Subperm
import FilterTree.Proofs.Yaml.Composed

/-! The values of nodes. A table whose root stands for a value is read as this value: each node gets
one item, the collections are filled in the order in which they are met, and none is inside itself. -/

namespace FilterTree.Yaml

/-! ### Merging -/

namespace Merge
variable {nodes : Array Node}

theorem modify_eq_self {α : Type} (xs : Array α) (n : Nat) (f : α → α)
    (h : ∀ x, xs[n]? = some x → f x = x) : xs.modify n f = xs := by
  refine Array.ext (Array.size_modify ..) fun i _ hi => ?_
  rw [Array.getElem_modify]
  split
  · next heq =>
    subst heq
    exact h _ (Array.getElem?_eq_getElem hi)
  · rfl

theorem ne_of_mem_tags {tag : String} (h : Scalar.tags.contains tag = true) :
    tag ≠ Tags.merge ∧ tag ≠ Tags.value ∧ isCollectionTag tag = false := by
  have hall : ∀ tag ∈ Scalar.tags,
      tag ≠ Tags.merge ∧ tag ≠ Tags.value ∧ isCollectionTag tag = false := by decide
  exact hall tag (List.contains_iff_mem.mp h)

theorem yields_retag {n : Nat} {v : Value} (h : IsScalar nodes n v) :
    Yields (retag n) nodes () nodes := by
  obtain ⟨tag, text, hnode, htag, -⟩ := h
  have hstay := modify_eq_self nodes n
    (fun node => if node.tag = Tags.value then { node with tag := Tags.str } else node)
    fun x hx => by
      cases hnode.symm.trans hx
      exact if_neg (ne_of_mem_tags htag).2.1
  unfold Yields retag
  simp [hstay]
  rfl

def ScalarKeys (nodes : Array Node) (es : List (Nat × Nat)) : Prop :=
  ∀ e ∈ es, ∃ k, IsScalar nodes e.1 k

theorem yields_retagAll {es : List (Nat × Nat)} (h : ScalarKeys nodes es) :
    Yields (es.forM fun e => retag e.1) nodes () nodes := by
  induction es with
  | nil => exact .pure () nodes
  | cons e es ih =>
    obtain ⟨k, hk⟩ := h e List.mem_cons_self
    exact (yields_retag hk).bind (ih fun d hd => h d (List.mem_cons_of_mem e hd))

theorem yields_place {es : List (Nat × Nat)} (h : ScalarKeys nodes es) :
    Yields (place? es) nodes none nodes := by
  have hnone : (es.findIdx? fun e => (nodes[e.1]?).any (·.tag = Tags.merge)) = none := by
    refine List.findIdx?_eq_none_iff.mpr fun e he => ?_
    obtain ⟨_, tag, text, hnode, htag, -⟩ := h e he
    rw [hnode]
    exact decide_eq_false (ne_of_mem_tags htag).1
  unfold Yields place?
  simp [hnone]
  rfl

theorem three_le_enough (nodes : Array Node) : 3 ≤ enough nodes := by
  unfold enough
  refine Array.foldl_induction (fun _ n => 3 ≤ n) (Nat.le_refl 3) fun i n hn => ?_
  split <;> omega

theorem yields_content {n : Nat} {node : Node} (h : nodes[n]? = some node) :
    Yields (content n) nodes node.content nodes := by
  unfold Yields content
  simp [h]
  rfl

theorem yields_entriesOf {n : Nat} {tag : String} {es : List (Nat × Nat)}
    (hnode : nodes[n]? = some ⟨tag, .mapping es⟩) (h : ScalarKeys nodes es) :
    Yields (entriesOf n) nodes es nodes := by
  have hentries : Yields (entries n) nodes es nodes :=
    (yields_content hnode).bind (.pure es nodes)
  have hmerge (fuel : Nat) : Yields (mergeFrom (fuel + 1) n 0 []) nodes () nodes := by
    rw [mergeFrom]
    refine hentries.bind ((yields_place h).bind ?_)
    exact (yields_retagAll h).bind (.pure () nodes)
  obtain ⟨fuel, hfuel⟩ : ∃ fuel, enough nodes = fuel + 2 :=
    ⟨enough nodes - 2, by have := three_le_enough nodes; omega⟩
  refine Yields.bind (m := get) rfl ?_
  rw [hfuel, mergedEntries]
  exact (yields_content hnode).bind ((hmerge fuel).bind hentries)

end Merge

/-! ### Entries -/

end Yaml

namespace Value

def entered {α : Type} (es : List (Value × α)) : List (Value × α) :=
  es.foldl (fun done e => insertEntry done e.1 e.2) []

theorem insertEntry_map {α β : Type} (f : α → β) (es : List (Value × α)) (k : Value) (v : α) :
    insertEntry (es.map fun e => (e.1, f e.2)) k (f v) =
      (insertEntry es k v).map fun e => (e.1, f e.2) := by
  unfold insertEntry
  rw [List.any_map]
  simp only [Function.comp_def]
  split
  · rw [List.map_map, List.map_map]
    refine List.map_congr_left fun e _ => ?_
    dsimp only [Function.comp]
    split <;> rfl
  · rw [List.map_append]
    rfl

theorem entered_map {α β : Type} (f : α → β) (es : List (Value × α)) :
    entered (es.map fun e => (e.1, f e.2)) = (entered es).map fun e => (e.1, f e.2) := by
  have hfrom (done : List (Value × α)) :
      (es.map fun e => (e.1, f e.2)).foldl (fun done e => insertEntry done e.1 e.2)
          (done.map fun e => (e.1, f e.2)) =
        (es.foldl (fun done e => insertEntry done e.1 e.2) done).map fun e => (e.1, f e.2) := by
    induction es generalizing done with
    | nil => rfl
    | cons e es ih =>
      rw [List.map_cons, List.foldl_cons, List.foldl_cons, insertEntry_map, ih]
  exact hfrom []

end Value

namespace Yaml

/-! ### Items -/

namespace Builder

def Made (b : Builder) (n : Nat) (i : Item) : Prop :=
  b.made[n]? = some (some i)

def IsOfKind (nodes : Array Node) (n : Nat) : Item → Prop
  | .value v => IsScalar nodes n v
  | .collection _ => ∃ node, nodes[n]? = some node ∧ ∀ text, node.content ≠ .scalar text
  | .pair _ _ => False

def FillsEntry (b : Builder) (e : Nat × Nat) (p : Value × Item) : Prop :=
  IsScalar b.nodes e.1 p.1 ∧ b.Made e.2 p.2

def Fills (b : Builder) (n : Nat) : Holding → Prop
  | .list is => ∃ ms, b.nodes[n]? = some ⟨Tags.seq, .sequence ms⟩ ∧ List.Forall₂ b.Made ms is
  | .map ps => ∃ es each, b.nodes[n]? = some ⟨Tags.map, .mapping es⟩ ∧
      List.Forall₂ b.FillsEntry es each ∧ ps = Value.entered each
  | .set _ => False

/-- Every item is that of its node, no two nodes have the same collection, and those that are neither
waiting nor in work hold what they should. -/
structure Sound (b : Builder) (inWork : List (Nat × Nat)) : Prop where
  size_eq : b.made.size = b.nodes.size
  owners : ∃ owners : List Nat, owners.length = b.collections.size ∧
    ∀ n c, owners[c]? = some n ↔ b.Made n (.collection c)
  kind : ∀ n i, b.Made n i → IsOfKind b.nodes n i
  filled : ∀ n c, b.Made n (.collection c) → (n, c) ∈ inWork ∨ (n, c) ∈ b.waiting ∨
    ∃ h, b.collections[c]? = some h ∧ b.Fills n h
  waiting : ∀ p ∈ b.waiting, b.Made p.1 (.collection p.2) ∧ ∃ v, StandsFor b.nodes p.1 v

structure Grows (b d : Builder) : Prop where
  nodes_eq : d.nodes = b.nodes
  made : ∀ n i, b.Made n i → d.Made n i
  balance : d.collections.size + b.waiting.length = b.collections.size + d.waiting.length

theorem Grows.refl (b : Builder) : b.Grows b :=
  ⟨rfl, fun _ _ h => h, rfl⟩

theorem Grows.trans {b d e : Builder} (hd : b.Grows d) (he : d.Grows e) : b.Grows e where
  nodes_eq := he.nodes_eq.trans hd.nodes_eq
  made n i h := he.made n i (hd.made n i h)
  balance := by
    have hbd := hd.balance
    have hde := he.balance
    omega

def give (b : Builder) (n : Nat) (i : Item) : Builder :=
  { b with made := b.made.setIfInBounds n (some i) }

def begin (b : Builder) (n : Nat) : Builder :=
  { b with
    collections := b.collections.push (.list [])
    waiting := b.waiting ++ [(n, b.collections.size)] }

section Give
variable {b : Builder} {n : Nat} {i : Item}

theorem made_give (hn : b.made[n]? = some none) {m : Nat} {j : Item} :
    (b.give n i).Made m j ↔ m = n ∧ j = i ∨ b.Made m j := by
  have hlt : n < b.made.size := (Array.getElem?_eq_some_iff.mp hn).1
  unfold Made give
  dsimp only
  rw [Array.getElem?_setIfInBounds]
  by_cases h : n = m
  · subst h
    rw [if_pos rfl, if_pos hlt, hn]
    simp [eq_comm]
  · simp [h, Ne.symm h]

theorem grows_give (hn : b.made[n]? = some none) : b.Grows (b.give n i) :=
  ⟨rfl, fun _ _ h => (made_give hn).mpr (.inr h), rfl⟩

theorem grows_begin : b.Grows (b.begin n) :=
  ⟨rfl, fun _ _ h => h, by simp [begin]; omega⟩

theorem Fills.mono {d : Builder} (h : b.Grows d) {n : Nat} {holding : Holding}
    (hfills : b.Fills n holding) : d.Fills n holding := by
  cases holding with
  | set items => exact hfills
  | list is =>
    obtain ⟨ms, hnode, hall⟩ := hfills
    exact ⟨ms, h.nodes_eq ▸ hnode, hall.imp h.made⟩
  | map ps =>
    obtain ⟨es, each, hnode, hall, hps⟩ := hfills
    refine ⟨es, each, h.nodes_eq ▸ hnode, hall.imp fun e p hep => ?_, hps⟩
    exact ⟨h.nodes_eq ▸ hep.1, h.made _ _ hep.2⟩

namespace Sound
variable {inWork : List (Nat × Nat)}

theorem lt_size (hb : b.Sound inWork) {c : Nat} (h : b.Made n (.collection c)) :
    c < b.collections.size := by
  obtain ⟨owners, hlength, howners⟩ := hb.owners
  rw [← hlength]
  exact (List.getElem?_eq_some_iff.mp ((howners n c).mpr h)).1

theorem injective (hb : b.Sound inWork) {m c : Nat} (hm : b.Made m (.collection c))
    (hn : b.Made n (.collection c)) : m = n := by
  obtain ⟨owners, -, howners⟩ := hb.owners
  exact Option.some.inj (((howners m c).mpr hm).symm.trans ((howners n c).mpr hn))

theorem item_of_isScalar (hb : b.Sound inWork) (hmade : b.Made n i) {v : Value}
    (h : IsScalar b.nodes n v) : i = .value v := by
  have hkind := hb.kind n i hmade
  cases i with
  | value w => exact congrArg Item.value (IsScalar.unique hkind h)
  | collection c =>
    obtain ⟨_, hnode, hcontent⟩ := hkind
    obtain ⟨_, text, hscalar, -⟩ := h
    cases hnode.symm.trans hscalar
    exact absurd rfl (hcontent text)
  | pair a b => exact absurd hkind id

theorem size_le (hb : b.Sound inWork) : b.collections.size ≤ b.nodes.size := by
  obtain ⟨owners, hlength, howners⟩ := hb.owners
  have hnodup : owners.Nodup := by
    refine List.nodup_iff_getElem?_ne_getElem?.mpr fun c d hcd hd heq => ?_
    have hget := List.getElem?_eq_getElem hd
    have hone := (howners _ d).mp hget
    have htwo := (howners _ c).mp (heq.trans hget)
    have hitem := Option.some.inj (Option.some.inj (htwo.symm.trans hone))
    exact Nat.ne_of_lt hcd (Item.collection.inj hitem)
  have hsubset : owners ⊆ List.range b.nodes.size := fun m hm => by
    obtain ⟨c, hc⟩ := List.mem_iff_getElem?.mp hm
    have hmade := (howners m c).mp hc
    rw [List.mem_range, ← hb.size_eq]
    exact (Array.getElem?_eq_some_iff.mp hmade).1
  have hle := (hnodup.subperm hsubset).length_le
  rwa [List.length_range, hlength] at hle

theorem give_value (hb : b.Sound inWork) (hn : b.made[n]? = some none) {v : Value}
    (hscalar : IsScalar b.nodes n v) : (b.give n (.value v)).Sound inWork where
  size_eq := by
    simpa [give] using hb.size_eq
  owners := by
    obtain ⟨owners, hlength, howners⟩ := hb.owners
    refine ⟨owners, hlength, fun m c => ?_⟩
    rw [howners, made_give hn]
    simp
  kind m i h := by
    rcases (made_give hn).mp h with ⟨rfl, rfl⟩ | h
    · exact hscalar
    · exact hb.kind m i h
  filled m c h := by
    rcases (made_give hn).mp h with ⟨-, h⟩ | h
    · cases h
    · refine (hb.filled m c h).imp id (Or.imp id ?_)
      exact fun ⟨holding, hget, hfills⟩ => ⟨holding, hget, hfills.mono (grows_give hn)⟩
  waiting p hp := ⟨(made_give hn).mpr (.inr (hb.waiting p hp).1), (hb.waiting p hp).2⟩

theorem give_collection (hb : b.Sound inWork) (hn : b.made[n]? = some none) {node : Node}
    (hnode : b.nodes[n]? = some node) (hcontent : ∀ text, node.content ≠ .scalar text)
    {v : Value} (hv : StandsFor b.nodes n v) :
    ((b.begin n).give n (.collection b.collections.size)).Sound inWork where
  size_eq := by
    simpa [give, begin] using hb.size_eq
  owners := by
    obtain ⟨owners, hlength, howners⟩ := hb.owners
    refine ⟨owners ++ [n], by simp [give, begin, hlength], fun m c => ?_⟩
    rw [made_give (b := b.begin n) hn, ← hlength]
    change _ ↔ _ ∨ b.Made m (.collection c)
    rw [← howners, List.getElem?_append]
    split
    · next hc =>
      have hne : c ≠ owners.length := Nat.ne_of_lt hc
      simp [hne]
    · next hc =>
      have hnone : owners[c]? = none := List.getElem?_eq_none (Nat.le_of_not_lt hc)
      rw [hnone]
      rcases Nat.eq_or_lt_of_not_lt hc with rfl | hlt
      · simp [eq_comm]
      · have hne : c ≠ owners.length := Nat.ne_of_gt hlt
        have hpos : c - owners.length ≠ 0 := Nat.sub_ne_zero_of_lt hlt
        simp [hne, hpos]
  kind m i h := by
    rcases (made_give (b := b.begin n) hn).mp h with ⟨rfl, rfl⟩ | h
    · exact ⟨node, hnode, hcontent⟩
    · exact hb.kind m i h
  filled m c h := by
    rcases (made_give (b := b.begin n) hn).mp h with ⟨rfl, hi⟩ | h
    · rw [Item.collection.inj hi]
      exact .inr (.inl (by simp [give, begin]))
    · refine (hb.filled m c h).imp id (Or.imp (fun hw => by simp [give, begin, hw]) ?_)
      intro ⟨holding, hget, hfills⟩
      refine ⟨holding, ?_, hfills.mono (grows_begin.trans (grows_give hn))⟩
      have hlt := hb.lt_size h
      simpa [give, begin, Array.getElem?_push, Nat.ne_of_lt hlt] using hget
  waiting p hp := by
    rcases List.mem_append.mp hp with hp | hp
    · exact ⟨(made_give (b := b.begin n) hn).mpr (.inr (hb.waiting p hp).1), (hb.waiting p hp).2⟩
    · rw [List.mem_singleton.mp hp]
      exact ⟨(made_give (b := b.begin n) hn).mpr (.inl ⟨rfl, rfl⟩), v, hv⟩

theorem unwait {p : Nat × Nat} {rest : List (Nat × Nat)} (hb : b.Sound [])
    (hw : b.waiting = p :: rest) : ({ b with waiting := rest } : Builder).Sound [p] where
  size_eq := hb.size_eq
  owners := hb.owners
  kind := hb.kind
  filled n c h := by
    have hfilled := hb.filled n c h
    rw [hw] at hfilled
    rcases hfilled with hin | hin | hdone
    · cases hin
    · rcases List.mem_cons.mp hin with rfl | hin
      · exact .inl List.mem_cons_self
      · exact .inr (.inl hin)
    · exact .inr (.inr hdone)
  waiting q hq := hb.waiting q (hw ▸ List.mem_cons_of_mem p hq)

theorem put {c : Nat} {holding : Holding} (hb : b.Sound [(n, c)])
    (hmade : b.Made n (.collection c)) (hfills : b.Fills n holding) :
    ({ b with collections := b.collections.setIfInBounds c holding } : Builder).Sound [] where
  size_eq := hb.size_eq
  owners := by
    obtain ⟨owners, hlength, howners⟩ := hb.owners
    exact ⟨owners, by simpa using hlength, howners⟩
  kind := hb.kind
  filled m d h := by
    have hlt := hb.lt_size hmade
    by_cases hd : c = d
    · subst hd
      cases hb.injective hmade h
      exact .inr (.inr ⟨holding, by simp [hlt], hfills⟩)
    · rcases hb.filled m d h with hin | hin | ⟨other, hget, hother⟩
      · cases List.mem_singleton.mp hin
        exact absurd rfl hd
      · exact .inr (.inl hin)
      · exact .inr (.inr ⟨other, by simpa [Array.getElem?_setIfInBounds, hd] using hget, hother⟩)
  waiting := hb.waiting

end Sound

end Give

end Builder

namespace Build
open Builder
variable {b : Builder} {inWork : List (Nat × Nat)} {n : Nat}

theorem yields_nodeAt {node : Node} (h : b.nodes[n]? = some node) : Yields (nodeAt n) b node b := by
  unfold Yields nodeAt
  simp [h]
  rfl

theorem yields_scalar {v : Value} (h : IsScalar b.nodes n v) : Yields (scalar n) b v b := by
  obtain ⟨tag, text, hnode, htag, hread, -⟩ := h
  refine (yields_nodeAt hnode).bind ?_
  have hknown : ¬ (!Scalar.tags.contains tag) = true := by simpa using htag
  have htext (fuel : Nat) : Yields (Build.text (fuel + 1) n) b text b := by
    rw [Build.text]
    exact (yields_nodeAt hnode).bind (.pure text b)
  dsimp only
  rw [if_neg hknown]
  refine Yields.bind (m := get) rfl ((htext _).bind ?_)
  rw [hread]
  rfl

theorem kind_of_standsFor {nodes : Array Node} {v : Value} (h : StandsFor nodes n v) :
    IsScalar nodes n v ∨
      ∃ node, nodes[n]? = some node ∧ isCollectionTag node.tag = true ∧
        ∀ text, node.content ≠ .scalar text := by
  cases h with
  | scalar h => exact .inl h
  | list hnode _ => exact .inr ⟨_, hnode, rfl, nofun⟩
  | map hnode _ => exact .inr ⟨_, hnode, rfl, nofun⟩

theorem yields_item (hb : b.Sound inWork) {v : Value} (hv : StandsFor b.nodes n v) :
    ∃ i d, Yields (item n) b i d ∧ d.Sound inWork ∧ b.Grows d ∧ d.Made n i := by
  have hlt : n < b.made.size := by
    rw [hb.size_eq]
    rcases kind_of_standsFor hv with h | ⟨_, hnode, -⟩
    · exact h.lt_size
    · exact (Array.getElem?_eq_some_iff.mp hnode).1
  cases hmade : b.made[n] with
  | some i =>
    have hget : b.made[n]? = some (some i) := by rw [Array.getElem?_eq_getElem hlt, hmade]
    refine ⟨i, b, ?_, hb, .refl b, hget⟩
    unfold item
    refine Yields.bind (m := get) rfl ?_
    dsimp only
    rw [hget]
    exact .pure i b
  | none =>
    have hget : b.made[n]? = some none := by rw [Array.getElem?_eq_getElem hlt, hmade]
    rcases kind_of_standsFor hv with hscalar | ⟨node, hnode, htag, hcontent⟩
    · refine ⟨.value v, b.give n (.value v), ?_, hb.give_value hget hscalar, grows_give hget,
        (made_give hget).mpr (.inl ⟨rfl, rfl⟩)⟩
      have hread := yields_scalar hscalar
      obtain ⟨tag, text, hnode, htag, -⟩ := hscalar
      unfold item
      refine Yields.bind (m := get) rfl ?_
      dsimp only
      rw [hget]
      refine (yields_nodeAt hnode).bind ?_
      rw [(Merge.ne_of_mem_tags htag).2.2, if_neg Bool.false_ne_true]
      exact hread.bind (.bind (.pure (Item.value v) b) (.bind (m := modify _) rfl (.pure _ _)))
    · refine ⟨.collection b.collections.size, _, ?_, hb.give_collection hget hnode hcontent hv,
        grows_begin.trans (grows_give hget), (made_give hget).mpr (.inl ⟨rfl, rfl⟩)⟩
      unfold item
      refine Yields.bind (m := get) rfl ?_
      dsimp only
      rw [hget]
      refine (yields_nodeAt hnode).bind ?_
      rw [htag, if_pos rfl]
      exact .bind (m := modifyGet _) rfl (.bind (m := modify _) rfl (.pure _ _))

theorem yields_items {vs : List Value} {ms : List Nat} {n : Nat} (hb : b.Sound inWork)
    (h : StandForAll b.nodes n ms vs) :
    ∃ is d, Yields (ms.mapM item) b is d ∧ d.Sound inWork ∧ b.Grows d ∧
      List.Forall₂ d.Made ms is := by
  induction ms generalizing b vs with
  | nil => exact ⟨[], b, .pure [] b, hb, .refl b, .nil⟩
  | cons m ms ih =>
    obtain _ | ⟨-, hv, hvs⟩ := h
    obtain ⟨i, d, hitem, hd, hgrows, hmade⟩ := yields_item hb hv
    obtain ⟨is, e, hitems, he, hmore, hall⟩ := ih hd (hgrows.nodes_eq.symm ▸ hvs)
    refine ⟨i :: is, e, ?_, he, hgrows.trans hmore, .cons (hmore.made m i hmade) hall⟩
    rw [List.mapM_cons]
    exact hitem.bind (hitems.bind (.pure _ e))

def addEntry (found : List (Nat × Value × Item)) (e : Nat × Nat) :
    Build (List (Nat × Value × Item)) := do
  match ← item e.1 with
  | .value key => return insertKey found e.1 key (← item e.2)
  | _ => invalid

theorem entries_eq (n : Nat) : entries n = do
    let each ← (← mergedEntries n).foldlM addEntry []
    return each.map (·.2) := rfl

def FromKeys (nodes : Array Node) (found : List (Nat × Value × Item)) : Prop :=
  ∀ f ∈ found, IsScalar nodes f.1 f.2.1

theorem map_insertKey {nodes : Array Node} {found : List (Nat × Value × Item)} {n : Nat} {k : Value}
    (hk : IsScalar nodes n k) (hfound : FromKeys nodes found) (i : Item) :
    (insertKey found n k i).map (·.2) = Value.insertEntry (found.map (·.2)) k i := by
  have hit : ∀ f ∈ found, (f.1 == n || f.2.1.same true k) = f.2.1.same true k := by
    intro f hf
    by_cases hn : f.1 = n
    · have hkey := hn ▸ hfound f hf
      rw [IsScalar.unique hkey hk, hk.same_self, Bool.or_true]
    · rw [beq_false_of_ne hn, Bool.false_or]
  have hany : (found.any fun f => f.1 == n || f.2.1.same true k) =
      (found.map (·.2)).any fun e => e.1.same true k := by
    rw [List.any_map, Bool.eq_iff_iff, List.any_eq_true, List.any_eq_true]
    refine exists_congr fun f => and_congr_right fun hf => ?_
    rw [hit f hf]
    rfl
  unfold insertKey Value.insertEntry
  dsimp only
  rw [hany]
  split
  · rw [List.map_map, List.map_map]
    refine List.map_congr_left fun f hf => ?_
    simp only [Function.comp, hit f hf]
    split <;> rfl
  · rw [List.map_append]
    rfl

theorem FromKeys.insertKey {nodes : Array Node} {found : List (Nat × Value × Item)} {n : Nat}
    {k : Value} (hk : IsScalar nodes n k) (hfound : FromKeys nodes found) (i : Item) :
    FromKeys nodes (Build.insertKey found n k i) := by
  unfold Build.insertKey
  dsimp only
  split
  · intro f hf
    obtain ⟨g, hg, rfl⟩ := List.mem_map.mp hf
    split <;> exact hfound g hg
  · intro f hf
    rcases List.mem_append.mp hf with hf | hf
    · exact hfound f hf
    · rw [List.mem_singleton.mp hf]
      exact hk

theorem yields_addEntry (hb : b.Sound inWork) (found : List (Nat × Value × Item)) {m k : Nat}
    {key v : Value} (hk : IsScalar b.nodes k key) (hv : StandsFor b.nodes m v) :
    ∃ i d, Yields (addEntry found (k, m)) b (insertKey found k key i) d ∧ d.Sound inWork ∧
      b.Grows d ∧ d.Made m i := by
  obtain ⟨j, c, hitem, hc, hgrows, hmade⟩ := yields_item hb (.scalar hk)
  obtain rfl := hc.item_of_isScalar hmade (hgrows.nodes_eq.symm ▸ hk)
  obtain ⟨i, d, hitem', hd, hmore, hmade'⟩ := yields_item hc (hgrows.nodes_eq.symm ▸ hv)
  exact ⟨i, d, hitem.bind (hitem'.bind (.pure _ d)), hd, hgrows.trans hmore, hmade'⟩

theorem yields_foundEntries {ps : List (Value × Value)} {es : List (Nat × Nat)} {n : Nat}
    {found : List (Nat × Value × Item)} (hb : b.Sound inWork)
    (h : StandForEntries b.nodes n es ps) (hfound : FromKeys b.nodes found) :
    ∃ all each d, Yields (es.foldlM addEntry found) b all d ∧ d.Sound inWork ∧ b.Grows d ∧
      List.Forall₂ d.FillsEntry es each ∧ all.map (·.2) =
        each.foldl (fun done e => Value.insertEntry done e.1 e.2) (found.map (·.2)) := by
  induction es generalizing b ps found with
  | nil => exact ⟨found, [], b, .pure found b, hb, .refl b, .nil, rfl⟩
  | cons e es ih =>
    obtain ⟨k, m⟩ := e
    cases h with
    | @cons _ _ _ key v _ ps hk _ hv hps => ?_
    obtain ⟨i, d, hadd, hd, hgrows, hmade⟩ := yields_addEntry hb found hk hv
    have hnext := hfound.insertKey hk i
    rw [← hgrows.nodes_eq] at hps hnext
    obtain ⟨all, each, e, hmore, he, hgrows', hall, heq⟩ := ih hd hps hnext
    refine ⟨all, (key, i) :: each, e, ?_, he, hgrows.trans hgrows',
      .cons ⟨?_, hgrows'.made m i hmade⟩ hall, ?_⟩
    · rw [List.foldlM_cons]
      exact Yields.bind (f := fun found => es.foldlM addEntry found) hadd hmore
    · rw [(hgrows.trans hgrows').nodes_eq]
      exact hk
    · rw [heq, map_insertKey hk hfound, List.foldl_cons]

theorem scalarKeys_of_standForEntries {nodes : Array Node} {ps : List (Value × Value)}
    {es : List (Nat × Nat)} {n : Nat} (h : StandForEntries nodes n es ps) :
    Merge.ScalarKeys nodes es := by
  induction es generalizing ps with
  | nil => exact List.forall_mem_nil _
  | cons e es ih =>
    obtain _ | ⟨hk, -, -, hps⟩ := h
    exact List.forall_mem_cons.mpr ⟨⟨_, hk⟩, ih hps⟩

theorem yields_mergedEntries {es : List (Nat × Nat)}
    (hnode : b.nodes[n]? = some ⟨Tags.map, .mapping es⟩) (h : Merge.ScalarKeys b.nodes es) :
    Yields (mergedEntries n) b es b := by
  have hmerge : (Merge.entriesOf n).run b.nodes = .ok (es, b.nodes) :=
    Merge.yields_entriesOf hnode h
  refine Yields.bind (m := get) rfl ?_
  rw [hmerge]
  rfl

theorem yields_holding (hb : b.Sound inWork) {v : Value} (hv : StandsFor b.nodes n v)
    (hcontent : ∀ tag text, b.nodes[n]? ≠ some ⟨tag, .scalar text⟩) :
    ∃ h d, Yields (holding n) b h d ∧ d.Sound inWork ∧ b.Grows d ∧ d.Fills n h := by
  cases hv with
  | scalar h =>
    obtain ⟨tag, text, hnode, -⟩ := h
    exact absurd hnode (hcontent tag text)
  | list hnode hvs =>
    obtain ⟨is, d, hitems, hd, hgrows, hall⟩ := yields_items hb hvs
    refine ⟨.list is, d, (yields_nodeAt hnode).bind ?_, hd, hgrows, _,
      hgrows.nodes_eq.symm ▸ hnode, hall⟩
    rw [if_neg (by decide : Tags.seq ≠ Tags.map), if_neg (by decide : Tags.seq ≠ Tags.set)]
    exact hitems.bind (.pure _ d)
  | map hnode hps =>
    obtain ⟨all, each, d, hfound, hd, hgrows, hall, heq⟩ :=
      yields_foundEntries hb hps (List.forall_mem_nil _)
    have hmerged := yields_mergedEntries hnode (scalarKeys_of_standForEntries hps)
    refine ⟨.map (all.map (·.2)), d, (yields_nodeAt hnode).bind ?_, hd, hgrows, _, each,
      hgrows.nodes_eq.symm ▸ hnode, hall, heq⟩
    rw [if_pos rfl, entries_eq]
    exact (hmerged.bind (hfound.bind (f := fun each => pure (each.map (·.2))) (.pure _ d))).bind
      (.pure _ d)

/-! ### Filling -/

theorem yields_fill (fuel : Nat) (hb : b.Sound [])
    (hfuel : b.nodes.size + b.waiting.length < fuel + b.collections.size) :
    ∃ d, Yields (fill fuel) b () d ∧ d.Sound [] ∧ d.waiting = [] ∧ d.nodes = b.nodes ∧
      ∀ n i, b.Made n i → d.Made n i := by
  -- A round fills one collection. What waits after it was made in it, and no more collections can be made
  -- than there are nodes: this is what the fuel is for.
  induction fuel generalizing b with
  | zero =>
    have hle := hb.size_le
    omega
  | succ fuel ih =>
    cases hw : b.waiting with
    | nil =>
      refine ⟨b, ?_, hb, hw, rfl, fun _ _ h => h⟩
      rw [fill]
      refine Yields.bind (m := get) rfl ?_
      rw [hw]
      exact .pure () b
    | cons p rest =>
      obtain ⟨n, c⟩ := p
      obtain ⟨hmade, v, hv⟩ := hb.waiting (n, c) (hw ▸ List.mem_cons_self)
      have hcontent (tag text : String) : b.nodes[n]? ≠ some ⟨tag, .scalar text⟩ := fun hnode => by
        obtain ⟨node, hnode', hcontent⟩ := hb.kind n _ hmade
        cases hnode.symm.trans hnode'
        exact hcontent text rfl
      obtain ⟨holding, d, hholding, hd, hgrows, hfills⟩ :=
        yields_holding (hb.unwait hw) hv hcontent
      have hput := hd.put (hgrows.made n _ hmade) hfills
      have hbalance : d.collections.size + rest.length = b.collections.size + d.waiting.length :=
        hgrows.balance
      have hsize : d.nodes.size = b.nodes.size := congrArg Array.size hgrows.nodes_eq
      rw [hw, List.length_cons] at hfuel
      obtain ⟨e, hfill, he, hdone, hnodes, hmade'⟩ := ih hput (by simp; omega)
      refine ⟨e, ?_, he, hdone, hnodes.trans hgrows.nodes_eq, fun m i h =>
        hmade' m i (hgrows.made m i h)⟩
      rw [fill]
      refine Yields.bind (m := get) rfl ?_
      rw [hw]
      exact .bind (m := modify _) rfl (hholding.bind (.bind (m := modify _) rfl hfill))

end Build

/-! ### Unfolding -/

namespace Builder

/-- The collections around a node, none of them twice: they are those of nodes before it. -/
structure Around (b : Builder) (path : List Nat) (n : Nat) : Prop where
  nodup : path.Nodup
  before : ∀ c ∈ path, ∃ m < n, b.Made m (.collection c)

variable {b : Builder} {path : List Nat} {n : Nat}

theorem Around.cons (hb : b.Sound []) (h : b.Around path n) {c m : Nat}
    (hc : b.Made n (.collection c)) (hm : n < m) : b.Around (c :: path) m where
  nodup := by
    refine List.nodup_cons.mpr ⟨fun hmem => ?_, h.nodup⟩
    obtain ⟨k, hk, hmade⟩ := h.before c hmem
    exact Nat.ne_of_lt hk (hb.injective hmade hc)
  before d hd := by
    rcases List.mem_cons.mp hd with rfl | hd
    · exact ⟨n, hm, hc⟩
    · obtain ⟨k, hk, hmade⟩ := h.before d hd
      exact ⟨k, Nat.lt_trans hk hm, hmade⟩

theorem Around.not_mem (hb : b.Sound []) (h : b.Around path n) {c : Nat}
    (hc : b.Made n (.collection c)) : c ∉ path := fun hmem => by
  obtain ⟨k, hk, hmade⟩ := h.before c hmem
  exact Nat.ne_of_lt hk (hb.injective hmade hc)

theorem Around.length_lt (hb : b.Sound []) (h : b.Around path n) {c : Nat}
    (hc : b.Made n (.collection c)) : path.length < b.collections.size := by
  have hall : ∀ d ∈ c :: path, d < b.collections.size := fun d hd => by
    rcases List.mem_cons.mp hd with rfl | hd
    · exact hb.lt_size hc
    · obtain ⟨k, -, hmade⟩ := h.before d hd
      exact hb.lt_size hmade
  have hnodup := List.nodup_cons.mpr ⟨h.not_mem hb hc, h.nodup⟩
  have hle := (hnodup.subperm fun d hd => List.mem_range.mpr (hall d hd)).length_le
  rw [List.length_range] at hle
  exact hle

theorem Around.exists_fuel (hb : b.Sound []) (h : b.Around path n) {c fuel : Nat}
    (hc : b.Made n (.collection c)) (hfuel : b.collections.size < fuel + path.length) :
    ∃ left, fuel = left + 1 ∧ b.collections.size < left + (c :: path).length := by
  have hlength := h.length_lt hb hc
  obtain ⟨left, rfl⟩ := Nat.exists_eq_add_one_of_ne_zero (by omega : fuel ≠ 0)
  exact ⟨left, rfl, by rw [List.length_cons]; omega⟩

theorem Sound.exists_collection (hb : b.Sound []) {i : Item} (hmade : b.Made n i) {node : Node}
    (hnode : b.nodes[n]? = some node) (hcontent : ∀ text, node.content ≠ .scalar text)
    (hdone : b.waiting = []) :
    ∃ c h, i = .collection c ∧ b.Made n (.collection c) ∧ b.collections[c]? = some h ∧
      b.Fills n h := by
  have hkind := hb.kind n i hmade
  cases i with
  | value v => exact absurd hkind (Compose.not_isScalar_of_getElem? hnode hcontent)
  | pair x y => exact absurd hkind id
  | collection c =>
    rcases hb.filled n c hmade with hin | hin | ⟨h, hget, hfills⟩
    · cases hin
    · rw [hdone] at hin
      cases hin
    · exact ⟨c, h, rfl, hmade, hget, hfills⟩

theorem Sound.exists_list (hb : b.Sound []) (hdone : b.waiting = []) {i : Item} (hmade : b.Made n i)
    {ms : List Nat} (hnode : b.nodes[n]? = some ⟨Tags.seq, .sequence ms⟩) :
    ∃ c is, i = .collection c ∧ b.Made n (.collection c) ∧ b.collections[c]? = some (.list is) ∧
      List.Forall₂ b.Made ms is := by
  obtain ⟨c, h, rfl, hc, hget, hfills⟩ := hb.exists_collection hmade hnode nofun hdone
  cases h with
  | list is =>
    obtain ⟨ms', hnode', hall⟩ := hfills
    cases hnode.symm.trans hnode'
    exact ⟨c, is, rfl, hc, hget, hall⟩
  | map ps =>
    obtain ⟨es, _, hnode', -⟩ := hfills
    cases hnode.symm.trans hnode'
  | set items => exact absurd hfills id

theorem Sound.exists_map (hb : b.Sound []) (hdone : b.waiting = []) {i : Item} (hmade : b.Made n i)
    {es : List (Nat × Nat)} (hnode : b.nodes[n]? = some ⟨Tags.map, .mapping es⟩) :
    ∃ c each, i = .collection c ∧ b.Made n (.collection c) ∧
      b.collections[c]? = some (.map (Value.entered each)) ∧ List.Forall₂ b.FillsEntry es each := by
  obtain ⟨c, h, rfl, hc, hget, hfills⟩ := hb.exists_collection hmade hnode nofun hdone
  cases h with
  | list is =>
    obtain ⟨ms, hnode', -⟩ := hfills
    cases hnode.symm.trans hnode'
  | map ps =>
    obtain ⟨es', each, hnode', hall, rfl⟩ := hfills
    cases hnode.symm.trans hnode'
    exact ⟨c, each, rfl, hc, hget, hall⟩
  | set items => exact absurd hfills id

theorem Sound.unfolded_of_isScalar (hb : b.Sound []) {i : Item} {v w : Value}
    (hv : StandsFor b.nodes n v) (hw : IsScalar b.nodes n w) (hi : b.Made n i)
    (maps lists : List Nat) (fuel : Nat) : i.unfolded b.collections maps lists fuel = v := by
  rw [hb.item_of_isScalar hi hw, Item.unfolded]
  cases hv with
  | scalar h => exact hw.unique h
  | list hnode _ =>
    exact absurd hw (Compose.not_isScalar_of_getElem? hnode fun _ h => Content.noConfusion h)
  | map hnode _ =>
    exact absurd hw (Compose.not_isScalar_of_getElem? hnode fun _ h => Content.noConfusion h)

mutual

/-- The item of a node unfolds to what the node stands for, inside collections that are on a path. -/
theorem unfolded_eq {b : Builder} (hb : b.Sound []) (hdone : b.waiting = []) {n : Nat} {v : Value}
    (hv : StandsFor b.nodes n v) {i : Item} {path maps lists : List Nat} {fuel : Nat}
    (hi : b.Made n i) (haround : b.Around path n) (hmaps : maps ⊆ path) (hlists : lists ⊆ path)
    (hfuel : b.collections.size < fuel + path.length) :
    i.unfolded b.collections maps lists fuel = v :=
  match hv with
  | .scalar h => hb.unfolded_of_isScalar (.scalar h) h hi maps lists fuel
  | .list hnode hvs => by
    obtain ⟨c, is, rfl, hc, hget, hall⟩ := hb.exists_list hdone hi hnode
    obtain ⟨fuel, rfl, hleft⟩ := haround.exists_fuel hb hc hfuel
    have hnew : c ∉ lists := fun hmem => haround.not_mem hb hc (hlists hmem)
    rw [Item.unfolded, hget]
    dsimp only
    rw [if_neg (by simpa using hnew)]
    rw [map_unfolded_eq hb hdone hvs hall (fun m hm => haround.cons hb hc hm)
      (List.subset_cons_of_subset c hmaps) (List.cons_subset_cons c hlists) hleft]
  | .map hnode hps => by
    obtain ⟨c, each, rfl, hc, hget, hall⟩ := hb.exists_map hdone hi hnode
    obtain ⟨fuel, rfl, hleft⟩ := haround.exists_fuel hb hc hfuel
    have hcount : maps.count c = 0 :=
      List.count_eq_zero.mpr fun hmem => haround.not_mem hb hc (hmaps hmem)
    rw [Item.unfolded, hget]
    dsimp only
    rw [hcount, ← Value.entered_map (·.unfolded b.collections (c :: maps) [] fuel) each,
      map_unfoldedEntries_eq hb hdone hps hall (fun m hm => haround.cons hb hc hm)
        (List.cons_subset_cons c hmaps) (List.nil_subset _) hleft]
    rfl

theorem map_unfolded_eq {b : Builder} (hb : b.Sound []) (hdone : b.waiting = []) {n : Nat}
    {ms : List Nat} {vs : List Value} (hvs : StandForAll b.nodes n ms vs) {is : List Item}
    {path maps lists : List Nat} {fuel : Nat} (his : List.Forall₂ b.Made ms is)
    (haround : ∀ m, n < m → b.Around path m) (hmaps : maps ⊆ path) (hlists : lists ⊆ path)
    (hfuel : b.collections.size < fuel + path.length) :
    is.map (·.unfolded b.collections maps lists fuel) = vs :=
  match hvs with
  | .nil => by
    cases his
    rfl
  | .cons hm hv hvs => by
    obtain ⟨i, is, hi, hrest, rfl⟩ := List.forall₂_cons_left_iff.mp his
    rw [List.map_cons, map_unfolded_eq hb hdone hvs hrest haround hmaps hlists hfuel]
    rcases hm with hm | ⟨w, hw⟩
    · rw [unfolded_eq hb hdone hv hi (haround _ hm) hmaps hlists hfuel]
    · rw [hb.unfolded_of_isScalar hv hw hi]

theorem map_unfoldedEntries_eq {b : Builder} (hb : b.Sound []) (hdone : b.waiting = []) {n : Nat}
    {es : List (Nat × Nat)} {ps : List (Value × Value)} (hps : StandForEntries b.nodes n es ps)
    {each : List (Value × Item)} {path maps lists : List Nat} {fuel : Nat}
    (heach : List.Forall₂ b.FillsEntry es each) (haround : ∀ m, n < m → b.Around path m)
    (hmaps : maps ⊆ path) (hlists : lists ⊆ path)
    (hfuel : b.collections.size < fuel + path.length) :
    each.map (fun e => (e.1, e.2.unfolded b.collections maps lists fuel)) = ps :=
  match hps with
  | .nil => by
    cases heach
    rfl
  | .cons hk hm hv hps => by
    obtain ⟨e, each, ⟨hkey, hi⟩, hrest, rfl⟩ := List.forall₂_cons_left_iff.mp heach
    rw [List.map_cons, map_unfoldedEntries_eq hb hdone hps hrest haround hmaps hlists hfuel,
      hkey.unique hk]
    rcases hm with hm | ⟨w, hw⟩
    · rw [unfolded_eq hb hdone hv hi (haround _ hm) hmaps hlists hfuel]
    · rw [hb.unfolded_of_isScalar hv hw hi]

end

end Builder

/-! ### Documents -/

theorem Builder.sound_start (nodes : Array Node) :
    (⟨nodes, Array.replicate nodes.size none, #[], []⟩ : Builder).Sound [] := by
  have hnone (n : Nat) (i : Item) :
      ¬ (⟨nodes, Array.replicate nodes.size none, #[], []⟩ : Builder).Made n i := by
    unfold Builder.Made
    rw [Array.getElem?_replicate]
    split <;> simp
  exact ⟨Array.size_replicate, ⟨[], rfl, fun n c => ⟨nofun, fun h => absurd h (hnone n _)⟩⟩,
    fun n i h => absurd h (hnone n i), fun n c h => absurd h (hnone n _), List.forall_mem_nil _⟩

/-- A table whose root stands for a value is read as this value. -/
theorem Build.exists_document {nodes : Array Node} {n : Nat} {v : Value}
    (h : StandsFor nodes n v) :
    ∃ l d, Yields (document n) ⟨nodes, Array.replicate nodes.size none, #[], []⟩ l d ∧
      l.unfolded = v := by
  obtain ⟨i, b, hitem, hb, hgrows, hmade⟩ := yields_item (Builder.sound_start nodes) h
  have hbalance : b.collections.size + 0 = 0 + b.waiting.length := hgrows.balance
  obtain ⟨d, hfill, hd, hdone, hnodes, hmore⟩ := yields_fill (b.nodes.size + 1) hb (by omega)
  refine ⟨⟨d.collections, i⟩, d, ?_, ?_⟩
  · exact hitem.bind (.bind (m := get) rfl (hfill.bind (.bind (m := get) rfl (.pure _ d))))
  · have hroot : StandsFor d.nodes n v := by
      rw [hnodes, hgrows.nodes_eq]
      exact h
    refine Builder.unfolded_eq hd hdone hroot (hmore n i hmade)
      ⟨List.nodup_nil, List.forall_mem_nil _⟩ (List.nil_subset _) (List.nil_subset _) ?_
    unfold Linked.reach
    dsimp only
    have hsquare : 2 * d.collections.size + 2 ≤
        (2 * d.collections.size + 2) * (2 * d.collections.size + 2) :=
      Nat.le_mul_of_pos_left _ (Nat.succ_pos _)
    simp only [List.length_nil]
    omega

end FilterTree.Yaml
