import FilterTree.Proofs.Yaml.Overlong
import FilterTree.Yaml.Reader

/-! How a document that has been cut into tokens can fail to have a value. Nearly always it breaks the
rules of the format. Otherwise one of its scalars cannot be what its tag says, or the tag of a scalar
stands before a mapping. -/

namespace FilterTree.Yaml

/-! ### Nodes from tokens -/

namespace Compose
variable {α β : Type}

/-- Fails against the rules of the format only, or where the tokens break off. -/
def Regular (p : Compose α) : Prop :=
  ∀ s, match p s with
    | .ok (_, t) => t.failure = s.failure
    | .error f => f = .invalid ∨ s.failure = some f

theorem regular_pure (a : α) : Regular (pure a) := fun _ => rfl

theorem regular_invalid : Regular (invalid : Compose α) := fun _ => .inl rfl

theorem regular_get : Regular (get : Compose Composer) := fun _ => rfl

theorem regular_modify {f : Composer → Composer} (hf : ∀ s, (f s).failure = s.failure) :
    Regular (modify f : Compose Unit) := fun s => hf s

theorem Regular.bind {p : Compose α} {f : α → Compose β} (hp : Regular p)
    (hf : ∀ a, Regular (f a)) : Regular (p >>= f) := by
  intro s
  have hps := hp s
  change match (p s >>= fun q => f q.1 q.2) with | .ok (_, t) => _ | .error f => _
  cases h : p s with
  | error e =>
    rw [h] at hps
    exact hps
  | ok q =>
    obtain ⟨a, t⟩ := q
    rw [h] at hps
    have hfa := hf a t
    change match f a t with | .ok (_, t) => _ | .error f => _
    dsimp only at hps
    rwa [hps] at hfa

theorem regular_peek : Regular peek := by
  intro s
  obtain ⟨tokens, failure, handles, anchors, nodes⟩ := s
  cases tokens with
  | nil =>
    cases failure with
    | none => exact .inl rfl
    | some f => exact .inr rfl
  | cons t tokens => rfl

theorem regular_drop : Regular drop := regular_modify fun _ => rfl

theorem regular_accept (t : Token) : Regular (accept t) := by
  refine regular_peek.bind fun u => ?_
  split
  · exact regular_drop.bind fun _ => regular_pure _
  · exact regular_pure _

theorem regular_expect (t : Token) : Regular (expect t) := by
  refine (regular_accept t).bind fun b => ?_
  split
  · exact regular_invalid
  · exact regular_pure _

theorem regular_nextIsOneOf (ts : List Token) : Regular (nextIsOneOf ts) :=
  regular_peek.bind fun _ => regular_pure _

theorem regular_enter (n : Node) : Regular (enter n) := fun _ => rfl

theorem regular_complete (number : Nat) (c : Content) : Regular (complete number c) :=
  regular_modify fun _ => rfl

theorem regular_nodeOf (name : String) : Regular (nodeOf name) := by
  refine regular_get.bind fun s => ?_
  split
  · exact regular_pure _
  · exact regular_invalid

theorem regular_remember (name : Option String) (number : Nat) :
    Regular (remember name number) := by
  cases name with
  | none => exact regular_pure _
  | some name => exact regular_modify fun _ => rfl

theorem regular_properties : Regular properties := by
  refine regular_peek.bind fun t => ?_
  split
  · refine regular_drop.bind fun _ => regular_peek.bind fun u => ?_
    split
    · exact regular_drop.bind fun _ => regular_pure _
    · exact regular_pure _
  · refine regular_drop.bind fun _ => regular_peek.bind fun u => ?_
    split
    · exact regular_drop.bind fun _ => regular_pure _
    · exact regular_pure _
  · exact regular_pure _

theorem regular_fullTag (t : Option Tag) : Regular (fullTag t) := by
  unfold fullTag
  split
  · exact regular_pure _
  · exact regular_pure _
  · refine regular_get.bind fun s => ?_
    split
    · exact regular_pure _
    · exact regular_invalid

mutual

theorem regular_node (block indentless : Bool) : ∀ fuel, Regular (node block indentless fuel)
  | 0 => regular_invalid
  | fuel + 1 => by
    unfold node
    refine regular_peek.bind fun t => ?_
    split
    · exact regular_drop.bind fun _ => regular_nodeOf _
    · refine regular_properties.bind fun p => (regular_fullTag p.2).bind fun tag =>
        regular_get.bind fun s => regular_peek.bind fun t => ?_
      obtain ⟨anchor, tag'⟩ := p
      dsimp only
      have hscalar (n : Node) : Regular (do
          if !(anchor.all fun a => !s.anchors.any (·.1 = a)) then invalid
          else
            let number ← enter n
            remember anchor number
            return number) := by
        split
        · exact regular_invalid
        · exact (regular_enter n).bind fun number =>
            (regular_remember anchor number).bind fun _ => regular_pure _
      have hfill {α : Type} {read : Compose α} (hread : Regular read) (n : Node)
          (content : α → Content) : Regular (do
          let number ← (do
            if !(anchor.all fun a => !s.anchors.any (·.1 = a)) then invalid
            else
              let number ← enter n
              remember anchor number
              return number)
          let a ← read
          complete number (content a)
          return number) :=
        (hscalar n).bind fun number => hread.bind fun a =>
          (regular_complete number _).bind fun _ => regular_pure _
      split
      · exact hfill (regular_indentlessItems fuel) _ _
      · split
        · exact regular_drop.bind fun _ => hscalar _
        · exact regular_drop.bind fun _ => hfill (regular_flowItems true fuel) _ _
        · exact regular_drop.bind fun _ => hfill (regular_flowEntries true fuel) _ _
        · split
          · exact regular_drop.bind fun _ => hfill (regular_blockItems fuel) _ _
          · split
            · exact regular_drop.bind fun _ => hfill (regular_blockEntries fuel) _ _
            · split
              · exact hscalar _
              · exact regular_invalid

theorem regular_nodeUnless (ends : List Token) (block indentless : Bool) :
    ∀ fuel, Regular (nodeUnless ends block indentless fuel)
  | 0 => regular_invalid
  | fuel + 1 => by
    unfold nodeUnless
    refine (regular_nextIsOneOf ends).bind fun b => ?_
    split
    · exact regular_enter _
    · exact regular_node block indentless fuel

theorem regular_blockItems : ∀ fuel, Regular (blockItems fuel)
  | 0 => regular_invalid
  | fuel + 1 => by
    unfold blockItems
    refine (regular_accept _).bind fun b => ?_
    split
    · exact (regular_nodeUnless _ _ _ fuel).bind fun n =>
        (regular_blockItems fuel).bind fun ns => regular_pure _
    · exact (regular_expect _).bind fun _ => regular_pure _

theorem regular_indentlessItems : ∀ fuel, Regular (indentlessItems fuel)
  | 0 => regular_invalid
  | fuel + 1 => by
    unfold indentlessItems
    refine (regular_accept _).bind fun b => ?_
    split
    · exact (regular_nodeUnless _ _ _ fuel).bind fun n =>
        (regular_indentlessItems fuel).bind fun ns => regular_pure _
    · exact regular_pure _

theorem regular_blockEntries : ∀ fuel, Regular (blockEntries fuel)
  | 0 => regular_invalid
  | fuel + 1 => by
    unfold blockEntries
    refine (regular_accept _).bind fun b => ?_
    split
    · refine (regular_nodeUnless _ _ _ fuel).bind fun k => (regular_accept _).bind fun b => ?_
      split
      · exact (regular_nodeUnless _ _ _ fuel).bind fun v =>
          (regular_blockEntries fuel).bind fun es => regular_pure _
      · exact (regular_enter _).bind fun v =>
          (regular_blockEntries fuel).bind fun es => regular_pure _
    · exact (regular_expect _).bind fun _ => regular_pure _

theorem regular_flowValue (close : Token) : ∀ fuel, Regular (flowValue close fuel)
  | 0 => regular_invalid
  | fuel + 1 => by
    unfold flowValue
    refine (regular_accept _).bind fun b => ?_
    split
    · exact regular_nodeUnless _ _ _ fuel
    · exact regular_enter _

theorem regular_flowItems (first : Bool) : ∀ fuel, Regular (flowItems first fuel)
  | 0 => regular_invalid
  | fuel + 1 => by
    unfold flowItems
    refine (regular_accept _).bind fun b => ?_
    split
    · exact regular_pure _
    · have hmore : Regular (do
          if ← accept .key then
            let k ← nodeUnless [.value, .flowEntry, .flowSequenceEnd] false false fuel
            let v ← flowValue .flowSequenceEnd fuel
            let pair ← enter ⟨Tags.map, .mapping [(k, v)]⟩
            return pair :: (← flowItems false fuel)
          else if ← accept .flowSequenceEnd then return []
          else
            let n ← node false false fuel
            return n :: (← flowItems false fuel)) := by
        refine (regular_accept _).bind fun b => ?_
        split
        · exact (regular_nodeUnless _ _ _ fuel).bind fun k => (regular_flowValue _ fuel).bind
            fun v => (regular_enter _).bind fun pair =>
              (regular_flowItems false fuel).bind fun ns => regular_pure _
        · refine (regular_accept _).bind fun b => ?_
          split
          · exact regular_pure _
          · exact (regular_node _ _ fuel).bind fun n =>
              (regular_flowItems false fuel).bind fun ns => regular_pure _
      dsimp only
      split
      · exact (regular_expect _).bind fun _ => hmore
      · exact hmore

theorem regular_flowEntries (first : Bool) : ∀ fuel, Regular (flowEntries first fuel)
  | 0 => regular_invalid
  | fuel + 1 => by
    unfold flowEntries
    refine (regular_accept _).bind fun b => ?_
    split
    · exact regular_pure _
    · have hmore : Regular (do
          if ← accept .key then
            let k ← nodeUnless [.value, .flowEntry, .flowMappingEnd] false false fuel
            let v ← flowValue .flowMappingEnd fuel
            return (k, v) :: (← flowEntries false fuel)
          else if ← accept .flowMappingEnd then return []
          else
            let k ← node false false fuel
            let v ← emptyNode
            return (k, v) :: (← flowEntries false fuel)) := by
        refine (regular_accept _).bind fun b => ?_
        split
        · exact (regular_nodeUnless _ _ _ fuel).bind fun k => (regular_flowValue _ fuel).bind
            fun v => (regular_flowEntries false fuel).bind fun es => regular_pure _
        · refine (regular_accept _).bind fun b => ?_
          split
          · exact regular_pure _
          · exact (regular_node _ _ fuel).bind fun k => (regular_enter _).bind fun v =>
              (regular_flowEntries false fuel).bind fun es => regular_pure _
      dsimp only
      split
      · exact (regular_expect _).bind fun _ => hmore
      · exact hmore

end

theorem regular_directives (hasVersion : Bool) (fuel : Nat) :
    Regular (directives hasVersion fuel) := by
  induction fuel generalizing hasVersion with
  | zero => exact regular_invalid
  | succ fuel ih =>
    unfold directives
    refine regular_peek.bind fun t => ?_
    split
    · refine regular_drop.bind fun _ => ?_
      split
      · split
        · exact regular_invalid
        · exact ih true
      · refine regular_get.bind fun s => ?_
        split
        · exact regular_invalid
        · exact .bind (regular_modify fun _ => rfl) fun _ => ih _
      · exact ih _
    · exact regular_modify fun _ => rfl

theorem regular_skipDocumentEnds (fuel : Nat) : Regular (skipDocumentEnds fuel) := by
  induction fuel with
  | zero => exact regular_pure _
  | succ fuel ih =>
    unfold skipDocumentEnds
    refine (regular_accept _).bind fun b => ?_
    split
    · exact ih
    · exact regular_pure _

theorem regular_document (fuel : Nat) : Regular (document fuel) := by
  have hend (n : Nat) : Regular (do
      skipDocumentEnds fuel
      expect .streamEnd
      return some n) :=
    (regular_skipDocumentEnds fuel).bind fun _ => (regular_expect _).bind fun _ => regular_pure _
  have hroot : Regular (node true false fuel >>= _) := (regular_node true false fuel).bind hend
  refine regular_peek.bind fun t => ?_
  split
  · exact regular_pure _
  · refine (regular_directives false fuel).bind fun _ => ?_
    dsimp only
    split
    case h_3 => exact hroot
    -- after an explicit start a document may be empty
    all_goals
      refine (regular_expect _).bind fun _ => regular_peek.bind fun t => ?_
      split
      · exact (regular_enter _).bind hend
      · exact (regular_enter _).bind hend
      · exact (regular_enter _).bind hend
      · exact (regular_enter _).bind hend
      · exact hroot

end Compose

theorem failure_of_ofTokens {ts : Tokens} {k : Kind} (h : Node.ofTokens ts = .error (.other k)) :
    ts.failure = some (.other k) := by
  have hdoc := Compose.regular_document (4 * ts.list.length + 8) ⟨ts.list, ts.failure, [], [], #[]⟩
  unfold Node.ofTokens at h
  change (Compose.document _ _).map _ = _ at h
  cases hrun : Compose.document (4 * ts.list.length + 8) ⟨ts.list, ts.failure, [], [], #[]⟩ with
  | error f =>
    rw [hrun] at h hdoc
    cases h
    exact hdoc.resolve_left nofun
  | ok p =>
    rw [hrun] at h
    cases h

/-! ### Values from nodes -/

/-- A node that promises a scalar and is none: what it spells out is nothing its tag knows, or it is
a mapping. A default key counts among the scalars, for merging makes it a text. -/
inductive Node.Impossible (serial : Nat) : Node → Prop
  | spelling {tag text : String} {k : Kind} (h : Scalar.read serial tag text = .error (.other k)) :
    Impossible serial ⟨tag, .scalar text⟩
  | mapping {tag : String} {es : List (Nat × Nat)} (h : tag ∈ Tags.value :: Scalar.tags) :
    Impossible serial ⟨tag, .mapping es⟩

def Possible (nodes : Array Node) : Prop :=
  ∀ n (node : Node), nodes[n]? = some node → ¬node.Impossible n

inductive Node.Merges : Node → Node → Prop
  | same (node : Node) : Merges node node
  | retagged {c : Content} : Merges ⟨Tags.value, c⟩ ⟨Tags.str, c⟩
  | entries {tag : String} (es es' : List (Nat × Nat)) : Merges ⟨tag, .mapping es⟩ ⟨tag, .mapping es'⟩

theorem Node.Merges.possible {a b : Node} {n : Nat} (h : a.Merges b) (ha : ¬a.Impossible n) :
    ¬b.Impossible n := by
  cases h with
  | same => exact ha
  | retagged =>
    intro hb
    cases hb with
    | spelling h => simp [Scalar.read] at h
    | mapping h => exact ha (.mapping (by simp))
  | entries es es' =>
    intro hb
    cases hb with
    | mapping h => exact ha (.mapping h)

namespace Merge
variable {α β : Type}

def IsMapping (n : Nat) (nodes : Array Node) : Prop :=
  ∃ tag es, nodes[n]? = some ⟨tag, .mapping es⟩

structure Keeps (before after : Array Node) : Prop where
  possible : Possible before → Possible after
  mapping : ∀ n, IsMapping n before → IsMapping n after

theorem Keeps.refl (nodes : Array Node) : Keeps nodes nodes := ⟨id, fun _ => id⟩

theorem Keeps.trans {a b c : Array Node} (h : Keeps a b) (h' : Keeps b c) : Keeps a c :=
  ⟨h'.possible ∘ h.possible, fun n => h'.mapping n ∘ h.mapping n⟩

theorem Node.Merges.mapping {a b : Node} (h : a.Merges b) {tag : String}
    {es : List (Nat × Nat)} (ha : a = ⟨tag, .mapping es⟩) : ∃ tag es, b = ⟨tag, .mapping es⟩ := by
  subst ha
  cases h with
  | same => exact ⟨_, _, rfl⟩
  | retagged => exact ⟨_, _, rfl⟩
  | entries es es' => exact ⟨_, _, rfl⟩

theorem keeps_modify {nodes : Array Node} {n : Nat} {f : Node → Node}
    (hf : ∀ node, nodes[n]? = some node → node.Merges (f node)) :
    Keeps nodes (nodes.modify n f) := by
  constructor
  · intro h i node hi
    rw [Array.getElem?_modify] at hi
    split at hi
    · subst_vars
      obtain ⟨a, ha, rfl⟩ := Option.map_eq_some_iff.1 hi
      exact (hf a ha).possible (h _ a ha)
    · exact h i node hi
  · intro i ⟨tag, es, hi⟩
    unfold IsMapping
    rw [Array.getElem?_modify]
    split
    · subst_vars
      obtain ⟨tag', es', h⟩ := Node.Merges.mapping (hf _ hi) rfl
      exact ⟨tag', es', by rw [hi, Option.map_some, h]⟩
    · exact ⟨tag, es, hi⟩

/-- Where `P` holds of the table, fails against the rules of the format only, and keeps it. -/
def Regular (P : Array Node → Prop) (m : Merge α) : Prop :=
  ∀ nodes, P nodes → match m nodes with
    | .ok (_, after) => Keeps nodes after
    | .error f => f = .invalid

def Stable (P : Array Node → Prop) : Prop :=
  ∀ a b, Keeps a b → P a → P b

theorem stable_isMapping (n : Nat) : Stable (IsMapping n) := fun _ _ h => h.mapping n

theorem stable_true : Stable fun _ => True := fun _ _ _ => id

variable {P : Array Node → Prop}

theorem regular_pure (a : α) : Regular P (pure a) := fun nodes _ => .refl nodes

theorem regular_throw : Regular P (throw .invalid : Merge α) := fun _ _ => rfl

theorem Regular.bind {m : Merge α} {f : α → Merge β} (hP : Stable P) (hm : Regular P m)
    (hf : ∀ a, Regular P (f a)) : Regular P (m >>= f) := by
  intro nodes hn
  have hmn := hm nodes hn
  change match (m nodes >>= fun q => f q.1 q.2) with | .ok (_, after) => _ | .error f => _
  cases h : m nodes with
  | error e =>
    rw [h] at hmn
    exact hmn
  | ok q =>
    obtain ⟨a, after⟩ := q
    rw [h] at hmn
    have hfa := hf a after (hP _ _ hmn hn)
    change match f a after with | .ok (_, after) => _ | .error f => _
    cases h : f a after with
    | error e =>
      rw [h] at hfa
      exact hfa
    | ok q =>
      rw [h] at hfa
      exact hmn.trans hfa

theorem regular_retag (n : Nat) : Regular P (retag n) := by
  refine fun nodes _ => keeps_modify fun node _ => ?_
  split
  · next h =>
    obtain ⟨tag, c⟩ := node
    cases h
    exact .retagged
  · exact .same node

theorem regular_setEntries (n : Nat) (es : List (Nat × Nat)) :
    Regular (IsMapping n) (setEntries n es) := by
  refine fun nodes ⟨tag, es', hn⟩ => keeps_modify fun node h => ?_
  obtain rfl := Option.some.inj (hn.symm.trans h)
  exact .entries _ _

theorem Regular.mono {Q : Array Node → Prop} {m : Merge α} (h : Regular Q m)
    (hPQ : ∀ nodes, P nodes → Q nodes) : Regular P m := fun nodes hn => h nodes (hPQ nodes hn)

theorem regular_content_bind {n : Nat} {f : Content → Merge α}
    (hf : ∀ c, Regular (fun nodes => P nodes ∧ (nodes[n]?).elim (.scalar "") (·.content) = c) (f c)) :
    Regular P (content n >>= f) := fun nodes hn => hf _ nodes ⟨hn, rfl⟩

theorem regular_entries (n : Nat) : Regular P (entries n) := by
  refine regular_content_bind fun c => ?_
  split
  · exact regular_pure _
  · exact regular_pure _

theorem regular_place? (es : List (Nat × Nat)) : Regular P (place? es) := fun nodes _ => .refl nodes

theorem regular_forM (hP : Stable P) {f : α → Merge Unit} (hf : ∀ a, Regular P (f a)) (as : List α) :
    Regular P (as.forM f) := by
  induction as with
  | nil => exact regular_pure _
  | cons a as ih => exact (hf a).bind hP fun _ => ih

theorem regular_mapM (hP : Stable P) {f : α → Merge β} (hf : ∀ a, Regular P (f a)) (as : List α) :
    Regular P (as.mapM f) := by
  induction as with
  | nil => exact regular_pure _
  | cons a as ih =>
    rw [List.mapM_cons]
    exact (hf a).bind hP fun _ => ih.bind hP fun _ => regular_pure _

mutual

theorem regular_mergeFrom : ∀ fuel n start added,
    Regular (IsMapping n) (mergeFrom fuel n start added)
  | 0, _, _, _ => by
    unfold mergeFrom
    exact regular_throw
  | fuel + 1, n, start, added => by
    have hn := stable_isMapping n
    unfold mergeFrom
    refine (regular_entries n).bind hn fun es => (regular_place? _).bind hn fun place => ?_
    split
    · refine (regular_forM hn (fun (e : Nat × Nat) => regular_retag e.1) _).bind hn fun _ => ?_
      split
      · exact regular_setEntries n _
      · exact regular_pure _
    · exact (regular_forM hn (fun (e : Nat × Nat) => regular_retag e.1) _).bind hn fun _ =>
        (regular_setEntries n _).bind hn fun _ =>
          ((regular_broughtBy fuel _).mono fun _ _ => trivial).bind hn fun more =>
            regular_mergeFrom fuel n _ _

theorem regular_mergedEntries : ∀ fuel n, Regular (fun _ => True) (mergedEntries fuel n)
  | 0, _ => by
    unfold mergedEntries
    exact regular_throw
  | fuel + 1, n => by
    unfold mergedEntries
    refine regular_content_bind fun c => ?_
    split
    · refine .mono (.bind (stable_isMapping n) (regular_mergeFrom fuel n 0 []) fun _ =>
        regular_entries n) fun nodes ⟨_, h⟩ => ?_
      cases hn : nodes[n]? with
      | none => simp [hn] at h
      | some node =>
        obtain ⟨tag, c⟩ := node
        rw [hn] at h
        obtain rfl : c = _ := h
        exact ⟨tag, _, hn⟩
    · exact regular_throw

theorem regular_broughtBy : ∀ fuel n, Regular (fun _ => True) (broughtBy fuel n)
  | 0, _ => by
    unfold broughtBy
    exact regular_throw
  | fuel + 1, n => by
    unfold broughtBy
    refine regular_content_bind fun c => .mono ?_ fun _ _ => trivial
    split
    · exact regular_mergedEntries fuel n
    · exact (regular_mapM stable_true (regular_mergedEntries fuel) _).bind stable_true fun _ =>
        regular_pure _
    · exact regular_throw

end

end Merge

namespace Build
variable {α β : Type}

def IsRegular : Except Failure (α × Builder) → Prop
  | .ok (_, after) => Possible after.nodes
  | .error f => f = .invalid

def Regular (m : Build α) : Prop :=
  ∀ b, Possible b.nodes → IsRegular (m b)

theorem regular_pure (a : α) : Regular (pure a) := fun _ h => h

theorem regular_get : Regular (get : Build Builder) := fun _ h => h

theorem regular_invalid : Regular (invalid : Build α) := fun _ _ => rfl

theorem regular_modify {f : Builder → Builder} (hf : ∀ b, (f b).nodes = b.nodes) :
    Regular (modify f : Build Unit) := by
  intro b h
  change Possible (f b).nodes
  rwa [hf]

theorem Regular.bind {m : Build α} {f : α → Build β} (hm : Regular m)
    (hf : ∀ a, Regular (f a)) : Regular (m >>= f) := by
  intro b hb
  have hmb := hm b hb
  change IsRegular (m b >>= fun q => f q.1 q.2)
  cases h : m b with
  | error e =>
    rw [h] at hmb
    exact hmb
  | ok q =>
    rw [h] at hmb
    exact hf q.1 q.2 hmb

theorem regular_mapM {f : α → Build β} (hf : ∀ a, Regular (f a)) (as : List α) :
    Regular (as.mapM f) := by
  induction as with
  | nil => exact regular_pure _
  | cons a as ih =>
    rw [List.mapM_cons]
    exact (hf a).bind fun _ => ih.bind fun _ => regular_pure _

theorem regular_foldlM {f : β → α → Build β} (hf : ∀ b a, Regular (f b a)) (as : List α) (b : β) :
    Regular (as.foldlM f b) := by
  induction as generalizing b with
  | nil => exact regular_pure _
  | cons a as ih => exact (hf b a).bind ih

theorem regular_nodeAt (n : Nat) : Regular (nodeAt n) := regular_get.bind fun _ => regular_pure _

theorem nodeAt_bind_run {f : Node → Build α} {n : Nat} (b : Builder) :
    (nodeAt n >>= f) b = f ((b.nodes[n]?).getD default) b := rfl

theorem text_of_scalar {b : Builder} {n : Nat} {tag s : String} (fuel : Nat)
    (h : b.nodes[n]? = some ⟨tag, .scalar s⟩) : text (fuel + 1) n b = .ok (s, b) := by
  unfold text
  rw [nodeAt_bind_run, h]
  rfl

theorem text_of_sequence {b : Builder} {n : Nat} {tag : String} {items : List Nat} (fuel : Nat)
    (h : b.nodes[n]? = some ⟨tag, .sequence items⟩) : text (fuel + 1) n b = .error .invalid := by
  unfold text
  rw [nodeAt_bind_run, h]
  rfl

theorem regular_scalar (n : Nat) : Regular (scalar n) := by
  intro b hb
  unfold scalar
  rw [nodeAt_bind_run]
  cases hn : b.nodes[n]? with
  | none => exact rfl
  | some node =>
    obtain ⟨tag, c⟩ := node
    rw [Option.getD_some]
    split
    · exact rfl
    · next htag =>
      change IsRegular ((text (b.nodes.size + 1) n b) >>= fun q => _)
      cases c with
      | scalar s =>
        rw [text_of_scalar _ hn]
        have hread := hb n _ hn
        change IsRegular ((Scalar.read n tag s) >>= fun v => .ok (v, b))
        cases h : Scalar.read n tag s with
        | ok v => exact hb
        | error f =>
          cases f with
          | invalid => rfl
          | other k => exact absurd (.spelling h) hread
      | sequence items =>
        rw [text_of_sequence _ hn]
        rfl
      | mapping es =>
        have htag : tag ∈ Tags.value :: Scalar.tags :=
          List.mem_cons_of_mem _ (by simpa using htag)
        exact absurd (.mapping htag) (hb n _ hn)

theorem regular_item (n : Nat) : Regular (item n) := by
  refine regular_get.bind fun b => ?_
  split
  · exact regular_pure _
  · refine (regular_nodeAt n).bind fun node => ?_
    dsimp only
    have hnote (i : Item) : Regular (do
        modify fun b => { b with made := b.made.setIfInBounds n (some i) }
        return i) :=
      .bind (regular_modify fun _ => rfl) fun _ => regular_pure i
    split
    · exact .bind (fun _ h => h) hnote
    · exact (regular_scalar n).bind fun v => hnote (.value v)

theorem mergedEntries_run (n : Nat) (b : Builder) :
    mergedEntries n b =
      (Merge.mergedEntries (Merge.enough b.nodes) n b.nodes).map fun q =>
        (q.1, { b with nodes := q.2 }) := by
  change ((Merge.mergedEntries (Merge.enough b.nodes) n b.nodes >>= fun q => .ok (q, b)) >>=
    fun p => .ok (p.1.1, { b with nodes := p.1.2 })) = _
  cases Merge.mergedEntries (Merge.enough b.nodes) n b.nodes with
  | error f => rfl
  | ok q => rfl

theorem regular_mergedEntries (n : Nat) : Regular (mergedEntries n) := by
  intro b hb
  have hmerge := Merge.regular_mergedEntries (Merge.enough b.nodes) n b.nodes trivial
  rw [mergedEntries_run]
  cases h : Merge.mergedEntries (Merge.enough b.nodes) n b.nodes with
  | error f =>
    rw [h] at hmerge
    exact hmerge
  | ok q =>
    rw [h] at hmerge
    exact hmerge.possible hb

theorem regular_entries (n : Nat) : Regular (entries n) := by
  refine (regular_mergedEntries n).bind fun es => ?_
  refine .bind (regular_foldlM (fun found e => ?_) es []) fun each => regular_pure _
  refine (regular_item e.1).bind fun k => ?_
  split
  · exact (regular_item e.2).bind fun i => regular_pure _
  · exact regular_invalid

theorem regular_pair (n : Nat) : Regular (pair n) := by
  refine (regular_nodeAt n).bind fun node => ?_
  split
  · exact (regular_item _).bind fun k => (regular_item _).bind fun v => regular_pure _
  · exact regular_invalid

theorem regular_holding (n : Nat) : Regular (holding n) := by
  refine (regular_nodeAt n).bind fun node => ?_
  split
  · exact (regular_entries n).bind fun es => regular_pure _
  · split
    · exact (regular_entries n).bind fun es => regular_pure _
    · split
      · refine .bind (regular_mapM (fun m => ?_) _) fun items => regular_pure _
        split
        · exact regular_item m
        · exact regular_pair m
      · exact regular_invalid

theorem regular_fill (fuel : Nat) : Regular (fill fuel) := by
  induction fuel with
  | zero => exact regular_pure _
  | succ fuel ih =>
    unfold fill
    refine regular_get.bind fun b => ?_
    split
    · exact regular_pure _
    · exact .bind (regular_modify fun _ => rfl) fun _ => (regular_holding _).bind fun h =>
        .bind (regular_modify fun _ => rfl) fun _ => ih

theorem regular_document (root : Nat) : Regular (document root) :=
  (regular_item root).bind fun _ => regular_get.bind fun _ => (regular_fill _).bind fun _ =>
    regular_get.bind fun _ => regular_pure _

end Build

def HasImpossible (s : String) : Prop :=
  ∃ (nodes : Array Node) (root : Option Nat) (n : Nat) (node : Node),
    Node.ofTokens (.ofChars s.toList) = .ok (nodes, root) ∧
      nodes[n]? = some node ∧ node.Impossible n

/-- Reading a text fails in another way than against the rules of the format only at an escape that
names no character, at a number too long to read, or at a node that promises a scalar and is none. -/
theorem overlong_or_impossible_of_read {s : String} {k : Kind}
    (h : read s = .error (.other k)) : Overlong s.toList ∨ HasImpossible s := by
  unfold read at h
  change (Node.ofTokens _ >>= _) = _ at h
  cases hnodes : Node.ofTokens (.ofChars s.toList) with
  | error f =>
    rw [hnodes] at h
    cases h
    exact .inl (overlong_of_tokens (failure_of_ofTokens hnodes))
  | ok p =>
    obtain ⟨nodes, _ | root⟩ := p
    · rw [hnodes] at h
      cases h
    · by_contra hnone
      have hpossible : Possible nodes := fun n node hn himp =>
        hnone (.inr ⟨nodes, some root, n, node, hnodes, hn, himp⟩)
      rw [hnodes] at h
      have hrun := Build.regular_document root ⟨nodes, Array.replicate nodes.size none, #[], []⟩
        hpossible
      change (Build.document root _).map _ = _ at h
      cases hdoc : Build.document root ⟨nodes, Array.replicate nodes.size none, #[], []⟩ with
      | ok p =>
        rw [hdoc] at h
        cases h
      | error f =>
        rw [hdoc] at h hrun
        cases h
        cases hrun

end FilterTree.Yaml
