import FilterTree.Proofs.Yaml.Denoted
import FilterTree.Proofs.Yaml.Form

/-! The nodes of a document. The tokens of a form are composed to a node that stands for a value, once
all collections in it are complete. -/

namespace FilterTree.Yaml

/-- A computation goes from one state to another, with a result. -/
def Yields {σ α : Type} (m : StateT σ (Except Failure) α) (s : σ) (a : α) (t : σ) : Prop :=
  m.run s = .ok (a, t)

namespace Yields
variable {σ α β : Type} {m : StateT σ (Except Failure) α} {f : α → StateT σ (Except Failure) β}
  {s t u : σ} {a : α} {b : β}

theorem pure (a : α) (s : σ) : Yields (Pure.pure a) s a s := rfl

theorem bind (hm : Yields m s a t) (hf : Yields (f a) t b u) : Yields (m >>= f) s b u := by
  unfold Yields at *
  rw [StateT.run_bind, hm]
  exact hf

end Yields

namespace Composer

def past (s : Composer) (rest : List Token) (more : List Node) (anchors : List (String × Nat)) :
    Composer :=
  { s with tokens := rest, anchors := anchors, nodes := s.nodes ++ more.toArray }

theorem past_past (s : Composer) (ts rest : List Token) (v w : List Node)
    (names anchors : List (String × Nat)) :
    (s.past ts v names).past rest w anchors = s.past rest (v ++ w) anchors := by
  simp [past]

theorem past_nil (s : Composer) (rest : List Token) :
    s.past rest [] s.anchors = { s with tokens := rest } := by
  simp [past]

theorem size_past (s : Composer) (ts : List Token) (v : List Node) (anchors : List (String × Nat)) :
    (s.past ts v anchors).nodes.size = s.nodes.size + v.length := by
  simp [past]

/-- The names that are known to a composer, each of them for a scalar, and the common handles. -/
structure Knows (s : Composer) (known : List String) : Prop where
  handles : s.handles = [("!", "!"), ("!!", Tags.common "")]
  names : s.anchors.map (·.1) = known
  scalars : ∀ a ∈ s.anchors, ∃ v, IsScalar s.nodes a.2 v

variable {s : Composer} {known : List String}

theorem Knows.with_tokens (h : s.Knows known) (ts : List Token) :
    ({ s with tokens := ts } : Composer).Knows known :=
  ⟨h.handles, h.names, h.scalars⟩

theorem Knows.past (h : s.Knows known) (rest : List Token) (more : List Node) :
    (s.past rest more s.anchors).Knows known where
  handles := h.handles
  names := h.names
  scalars a ha := by
    obtain ⟨v, hscalar⟩ := h.scalars a ha
    exact ⟨v, hscalar.of_getElem? (Array.getElem?_append_left hscalar.lt_size)⟩

theorem Knows.exists_find (h : s.Knows known) {name : String} (hname : name ∈ known) :
    ∃ a, s.anchors.find? (·.1 = name) = some a ∧ ∃ v, IsScalar s.nodes a.2 v := by
  rw [← h.names] at hname
  obtain ⟨a, ha, rfl⟩ := List.mem_map.mp hname
  cases hfind : s.anchors.find? (·.1 = a.1) with
  | none => exact absurd (List.find?_eq_none.mp hfind a ha) (by simp)
  | some b => exact ⟨b, rfl, h.scalars b (List.mem_of_find?_eq_some hfind)⟩

end Composer

namespace Compose
variable {s : Composer} {t : Token} {ts : List Token}

theorem yields_peek (h : s.tokens = t :: ts) : Yields peek s t s := by
  unfold Yields peek
  simp [h]
  rfl

theorem yields_drop (h : s.tokens = t :: ts) : Yields drop s () { s with tokens := ts } := by
  unfold Yields drop
  simp [h]
  rfl

theorem yields_accept (h : s.tokens = t :: ts) :
    Yields (accept t) s true { s with tokens := ts } := by
  refine (yields_peek h).bind ?_
  rw [if_pos rfl]
  exact (yields_drop h).bind (.pure _ _)

theorem yields_accept_other (h : s.tokens = t :: ts) {u : Token} (hu : t ≠ u) :
    Yields (accept u) s false s := by
  refine (yields_peek h).bind ?_
  rw [if_neg hu]
  exact .pure _ _

theorem yields_expect (h : s.tokens = t :: ts) :
    Yields (expect t) s () { s with tokens := ts } :=
  (yields_accept h).bind (.pure _ _)

theorem yields_enter (n : Node) :
    Yields (enter n) s s.nodes.size (s.past s.tokens [n] s.anchors) := by
  unfold Yields enter
  simp [Composer.past]
  rfl

def isBare : Token → Bool
  | .alias _ | .anchor _ | .tag _ => false
  | _ => true

theorem yields_properties (h : s.tokens = t :: ts) (ht : isBare t = true) :
    Yields properties s (none, none) s := by
  refine (yields_peek h).bind ?_
  cases t <;> first | exact .pure _ _ | cases ht

theorem modify_append {α : Type} (xs : Array α) (x : α) (ys : List α) (f : α → α) :
    (xs ++ (x :: ys).toArray).modify xs.size f = xs ++ (f x :: ys).toArray := by
  have h := List.modifyTailIdx_add (List.modifyHead f) 0 xs.toList (x :: ys)
  rw [Array.length_toList] at h
  apply Array.ext'
  simpa [Array.toList_modify, List.modify] using h

theorem yields_complete {tag : String} {empty c : Content} {rest : List Token}
    {inner : List Node} {anchors : List (String × Nat)} :
    Yields (complete s.nodes.size c) (s.past rest (⟨tag, empty⟩ :: inner) anchors) ()
      (s.past rest (⟨tag, c⟩ :: inner) anchors) := by
  unfold Yields complete
  simp [Composer.past, modify_append]
  rfl

def collected {α : Type} (tag : String) (content : List α → Content) (read : Compose (List α)) :
    Compose Nat := do
  let number ← enter ⟨tag, content []⟩
  complete number (content (← read))
  return number

def bareNode (block indentless : Bool) (fuel : Nat) (t : Token) : Compose Nat :=
  if indentless && t = .blockEntry then collected Tags.seq .sequence (indentlessItems fuel)
  else
    match t with
    | .scalar text isPlain => do
      drop
      enter ⟨scalarTag none isPlain text, .scalar text⟩
    | .flowSequence => do
      drop
      collected Tags.seq .sequence (flowItems true fuel)
    | .flowMapping => do
      drop
      collected Tags.map .mapping (flowEntries true fuel)
    | t =>
      if block && t = .blockSequence then do
        drop
        collected Tags.seq .sequence (blockItems fuel)
      else if block && t = .blockMapping then do
        drop
        collected Tags.map .mapping (blockEntries fuel)
      else invalid

theorem yields_node {block indentless : Bool} {fuel : Nat} {n : Nat} {u : Composer}
    (h : s.tokens = t :: ts) (ht : isBare t = true)
    (hnode : Yields (bareNode block indentless fuel t) s n u) :
    Yields (node block indentless (fuel + 1)) s n u := by
  rw [node]
  refine (yields_peek h).bind ?_
  cases t
  case «alias» | anchor | tag => cases ht
  all_goals
    refine (yields_properties h rfl).bind ?_
    refine Yields.bind (.pure none _) (.bind (m := get) rfl ((yields_peek h).bind ?_))
    simpa [bareNode, collected, remember, Compose.isOpenTag, collectionTag] using hnode

theorem yields_named {block indentless : Bool} {fuel : Nat} {name text : String} {isPlain : Bool}
    (h : s.tokens = .anchor name :: .scalar text isPlain :: ts)
    (hnew : name ∉ s.anchors.map (·.1)) :
    Yields (node block indentless (fuel + 1)) s s.nodes.size
      (s.past ts [⟨scalarTag none isPlain text, .scalar text⟩]
        ((name, s.nodes.size) :: s.anchors)) := by
  have hunknown : (s.anchors.any (·.1 = name)) = false := by
    refine List.any_eq_false.mpr fun a ha => ?_
    simpa using fun heq : a.1 = name => hnew (List.mem_map.mpr ⟨a, ha, heq⟩)
  have hproperties : Yields properties s (some name, none)
      { s with tokens := .scalar text isPlain :: ts } :=
    (yields_peek h).bind ((yields_drop h).bind ((yields_peek rfl).bind (.pure _ _)))
  rw [node]
  refine (yields_peek h).bind (hproperties.bind (.bind (.pure none _) (.bind (m := get) rfl
    ((yields_peek rfl).bind ?_))))
  simp only [Option.all_some, hunknown, reduceCtorEq, decide_false, Bool.and_false,
    Bool.false_eq_true, if_false, Bool.not_false, Bool.not_true]
  exact (yields_drop rfl).bind ((yields_enter _).bind (.bind (m := modify _) rfl (.pure _ _)))

theorem yields_binary {block indentless : Bool} {fuel : Nat} {text : String}
    (h : s.tokens = .tag binaryTag :: .scalar text false :: ts)
    (hhandles : s.handles = [("!", "!"), ("!!", Tags.common "")]) :
    Yields (node block indentless (fuel + 1)) s s.nodes.size
      (s.past ts [⟨Tags.binary, .scalar text⟩] s.anchors) := by
  have hproperties : Yields properties s (none, some binaryTag)
      { s with tokens := .scalar text false :: ts } :=
    (yields_peek h).bind ((yields_drop h).bind ((yields_peek rfl).bind (.pure _ _)))
  have htag : Yields (fullTag (some binaryTag)) { s with tokens := .scalar text false :: ts }
      (some Tags.binary) { s with tokens := .scalar text false :: ts } := by
    refine Yields.bind (m := get) rfl ?_
    dsimp only
    rw [hhandles]
    exact .pure _ _
  have hscalar : scalarTag (some Tags.binary) false text = Tags.binary := rfl
  rw [node]
  refine (yields_peek h).bind (hproperties.bind (htag.bind (.bind (m := get) rfl
    ((yields_peek rfl).bind ?_))))
  simp only [Option.all_none, reduceCtorEq, decide_false, Bool.and_false, Bool.false_eq_true,
    if_false, Bool.not_true, hscalar]
  exact (yields_drop rfl).bind ((yields_enter _).bind (.bind (.pure () _) (.pure _ _)))

theorem yields_alias {block indentless : Bool} {fuel : Nat} {name : String} {a : String × Nat}
    (h : s.tokens = .alias name :: ts) (hfind : s.anchors.find? (·.1 = name) = some a) :
    Yields (node block indentless (fuel + 1)) s a.2 (s.past ts [] s.anchors) := by
  have hname : Yields (nodeOf name) { s with tokens := ts } a.2 { s with tokens := ts } := by
    refine Yields.bind (m := get) rfl ?_
    dsimp only
    rw [hfind]
    exact .pure _ _
  rw [node, s.past_nil]
  exact (yields_peek h).bind ((yields_drop h).bind hname)

/-! ### What is composed -/

/-- A computation composes tokens to nodes. Whatever table has these nodes in the end, with the
scalars from before, has to do with the result as a relation tells. -/
def Composes {α : Type} (m : Compose α) (s : Composer) (rest : List Token) (known : List String)
    (R : Array Node → α → Prop) : Prop :=
  ∃ a more anchors, Yields m s a (s.past rest more anchors) ∧
    (s.past rest more anchors).Knows known ∧
    ∀ table, Keeps s.nodes table → IsRun table s.nodes.size more → R table a

namespace Composes
variable {α β : Type} {m : Compose α} {f : α → Compose β} {rest : List Token} {known : List String}
  {R : Array Node → α → Prop} {S : Array Node → β → Prop}

theorem mono {Q : Array Node → α → Prop} (h : Composes m s rest known R)
    (hRQ : ∀ table a, R table a → Q table a) : Composes m s rest known Q := by
  obtain ⟨a, more, anchors, hyields, hknows, hR⟩ := h
  exact ⟨a, more, anchors, hyields, hknows, fun table hkeeps hrun => hRQ table a (hR table hkeeps hrun)⟩

theorem congr {m' : Compose α} (h : Composes m s rest known R)
    (hm : ∀ a u, Yields m s a u → Yields m' s a u) : Composes m' s rest known R := by
  obtain ⟨a, more, anchors, hyields, hknows, hR⟩ := h
  exact ⟨a, more, anchors, hm _ _ hyields, hknows, hR⟩

theorem pure {a : α} (htokens : s.tokens = rest) (hknows : s.Knows known)
    (hR : ∀ table, R table a) : Composes (Pure.pure a) s rest known R := by
  have hstay : s.past rest [] s.anchors = s := by
    rw [s.past_nil]
    exact congrArg (fun ts => { s with tokens := ts }) htokens.symm
  exact ⟨a, [], s.anchors, hstay ▸ .pure a s, hstay ▸ hknows, fun table _ _ => hR table⟩

theorem after {a : α} {ts : List Token} (hm : Yields m s a { s with tokens := ts })
    (hf : Composes (f a) { s with tokens := ts } rest known S) :
    Composes (m >>= f) s rest known S := by
  obtain ⟨b, more, anchors, hyields, hknows, hS⟩ := hf
  exact ⟨b, more, anchors, hm.bind hyields, hknows, hS⟩

theorem bind {ts : List Token} {names : List String} (hm : Composes m s ts names R)
    (hf : ∀ a (u : Composer), u.tokens = ts → u.Knows names → s.nodes.size ≤ u.nodes.size →
      Composes (f a) u rest known fun table b => R table a → S table b) :
    Composes (m >>= f) s rest known S := by
  obtain ⟨a, more, anchors, hyields, hknows, hR⟩ := hm
  obtain ⟨b, inner, anchors', hyields', hknows', hS⟩ := hf a (s.past ts more anchors) rfl hknows
    (by rw [s.size_past]; omega)
  rw [s.past_past] at hyields' hknows'
  refine ⟨b, more ++ inner, anchors', hyields.bind hyields', hknows', fun table hkeeps hrun => ?_⟩
  refine hS table (hkeeps.append hrun.left) ?_ (hR table hkeeps hrun.left)
  rw [s.size_past]
  exact hrun.right

theorem map {g : α → β} (hm : Composes m s rest known R) (hg : ∀ table a, R table a → S table (g a)) :
    Composes (m >>= fun a => Pure.pure (g a)) s rest known S :=
  hm.bind fun a _ htokens hknows _ => .pure htokens hknows fun table => hg table a

end Composes

theorem not_isScalar_of_getElem? {nodes : Array Node} {n : Nat} {node : Node} {v : Value}
    (hnode : nodes[n]? = some node) (hcontent : ∀ text, node.content ≠ .scalar text) :
    ¬ IsScalar nodes n v := by
  rintro ⟨tag, text, hscalar, -⟩
  cases hnode.symm.trans hscalar
  exact hcontent text rfl

theorem keeps_completed {nodes : Array Node} {node node' : Node} {inner : List Node}
    (hcontent : ∀ text, node.content ≠ .scalar text) :
    Keeps (nodes ++ (node :: inner).toArray) (nodes ++ (node' :: inner).toArray) := by
  intro n v hscalar
  refine hscalar.of_getElem? ?_
  obtain hn | rfl | hn := Nat.lt_trichotomy n nodes.size
  · rw [Array.getElem?_append_left hn, Array.getElem?_append_left hn]
  · refine absurd hscalar (not_isScalar_of_getElem? ?_ hcontent)
    rw [Array.getElem?_append_right (Nat.le_refl _)]
    simp
  · obtain ⟨i, rfl⟩ := Nat.exists_eq_add_of_lt hn
    rw [Array.getElem?_append_right (by omega), Array.getElem?_append_right (by omega)]
    simp [Nat.add_assoc]

theorem composes_collected {α : Type} {tag : String} {content : List α → Content}
    {read : Compose (List α)} {rest : List Token} {known : List String}
    {R : Array Node → List α → Prop} (hcontent : ∀ text, content [] ≠ .scalar text)
    (h : Composes read (s.past s.tokens [⟨tag, content []⟩] s.anchors) rest known R) :
    Composes (collected tag content read) s rest known fun table n =>
      n = s.nodes.size ∧ ∃ found, table[n]? = some ⟨tag, content found⟩ ∧ R table found := by
  obtain ⟨found, inner, anchors, hyields, hknows, hR⟩ := h
  rw [s.past_past, List.singleton_append] at hyields hknows
  refine ⟨s.nodes.size, ⟨tag, content found⟩ :: inner, anchors,
    (yields_enter _).bind (hyields.bind (yields_complete.bind (.pure _ _))),
    ⟨hknows.handles, hknows.names, fun a ha => ?_⟩, fun table hkeeps hrun => ⟨rfl, found, hrun.get, ?_⟩⟩
  · obtain ⟨v, hscalar⟩ := hknows.scalars a ha
    exact ⟨v, keeps_completed hcontent _ _ hscalar⟩
  · refine hR table (fun n v hscalar => ?_) (by rw [s.size_past]; exact hrun.tail)
    -- the collection itself is no scalar, so that only those from before are left
    have hn : n < s.nodes.size := by
      have hlt := hscalar.lt_size
      rw [s.size_past, List.length_singleton] at hlt
      refine Nat.lt_of_le_of_ne (Nat.le_of_lt_succ hlt) ?_
      rintro rfl
      refine not_isScalar_of_getElem? (?_ : _ = some ⟨tag, content []⟩) hcontent hscalar
      simp [Composer.past]
    exact hkeeps n v (hscalar.of_getElem? (Array.getElem?_append_left hn).symm)

end Compose

end FilterTree.Yaml
