import FilterTree.Proofs.Yaml.Composed

/-! What forms are read as. The tokens of a form are composed to a node that stands for a value made of
the values of its parts. -/

namespace FilterTree.Yaml

open Compose

/-- The tokens of a form are composed to a node that a table tells something of. Any node from before
may hold it. Some names are known before, and others afterwards. An open sequence ends where no further
item comes. -/
def Form.Reads (known known' : List String) (x : Form) (R : Array Node → Nat → Prop) : Prop :=
  ∀ (isOpen indentless : Bool) (fuel : Nat) (s : Composer) (rest : List Token),
    s.tokens = x.tokens isOpen ++ rest → 3 * (x.tokens isOpen).length + 2 ≤ fuel →
    (isOpen = true → indentless = true ∧ ∃ t ts, rest = t :: ts ∧ t ≠ .blockEntry) →
    s.Knows known → Composes (node true indentless fuel) s rest known' fun table n =>
      (∀ m < s.nodes.size, IsBelow table m n) ∧ R table n

def GivesAll (size : Nat) (Q : List Value → Prop) (table : Array Node) (ms : List Nat) : Prop :=
  ∀ n < size, ∃ vs, StandForAll table n ms vs ∧ Q vs

def GivesEntries (size : Nat) (Q : List (Value × Value) → Prop) (table : Array Node)
    (es : List (Nat × Nat)) : Prop :=
  ∀ n < size, ∃ ps, StandForEntries table n es ps ∧ Q ps

def ItemsRead (known known' : List String) (xs : List Form) (Q : List Value → Prop) : Prop :=
  ∀ (fuel : Nat) (s : Composer) (t : Token) (rest : List Token),
    s.tokens = Form.itemTokens xs ++ t :: rest → 3 * (Form.itemTokens xs).length + 1 ≤ fuel →
    s.Knows known →
    (t = .blockEnd → Composes (blockItems fuel) s rest known' (GivesAll s.nodes.size Q)) ∧
    (t ≠ .blockEntry →
      Composes (indentlessItems fuel) s (t :: rest) known' (GivesAll s.nodes.size Q))

def EntriesRead (known known' : List String) (es : List (Form × Bool × Form))
    (Q : List (Value × Value) → Prop) : Prop :=
  ∀ (fuel : Nat) (s : Composer) (rest : List Token),
    s.tokens = Form.entryTokens es ++ .blockEnd :: rest →
    3 * (Form.entryTokens es).length + 1 ≤ fuel → s.Knows known →
    Composes (blockEntries fuel) s rest known' (GivesEntries s.nodes.size Q)

def opens : Token → Bool
  | .scalar _ _ | .anchor _ | .tag _ | .alias _ | .flowSequence | .flowMapping | .blockSequence
  | .blockMapping | .blockEntry => true
  | _ => false

theorem exists_tokens (isOpen : Bool) (x : Form) : ∃ t ts, x.tokens isOpen = t :: ts ∧
    opens t = true ∧ (isOpen = false → t ≠ .blockEntry) := by
  cases x with
  | scalar | named | binary | «alias» => exact ⟨_, _, rfl, rfl, nofun⟩
  | sequence items =>
    cases items with
    | nil => exact ⟨_, _, rfl, rfl, nofun⟩
    | cons x xs => cases isOpen <;> exact ⟨_, _, rfl, rfl, nofun⟩
  | mapping entries => cases entries <;> exact ⟨_, _, rfl, rfl, nofun⟩

theorem givesScalar_of_isRun {P : Value → Prop} {tag text : String} {table : Array Node} {n : Nat}
    (h : IsReading tag text P) (hrun : IsRun table n [⟨tag, .scalar text⟩]) :
    GivesScalar P table n := by
  obtain ⟨v, hread, hsame, hv⟩ := h.2 n
  exact ⟨v, ⟨tag, text, hrun.get, h.1, hread, hsame⟩, hv⟩

namespace Form.Reads
variable {known known' : List String} {x : Form} {P : Value → Prop}

theorem mono {R S : Array Node → Nat → Prop} (h : x.Reads known known' R)
    (hRS : ∀ table n, R table n → S table n) : x.Reads known known' S :=
  fun isOpen indentless fuel s rest htokens hfuel hopen hknows =>
    (h isOpen indentless fuel s rest htokens hfuel hopen hknows).mono fun table n hn =>
      ⟨hn.1, hRS table n hn.2⟩

theorem orEnd {R : Array Node → Nat → Prop} (h : x.Reads known known' R) (isOpen : Bool)
    {indentless : Bool} {fuel : Nat} {s : Composer} {rest ends : List Token}
    (htokens : s.tokens = x.tokens isOpen ++ rest)
    (hends : ∀ t ∈ ends, opens t = false ∨ isOpen = false ∧ t = .blockEntry)
    (hfuel : 3 * (x.tokens isOpen).length + 2 ≤ fuel)
    (hopen : isOpen = true → indentless = true ∧ ∃ t ts, rest = t :: ts ∧ t ≠ .blockEntry)
    (hknows : s.Knows known) :
    Composes (nodeUnless ends true indentless (fuel + 1)) s rest known' fun table n =>
      (∀ m < s.nodes.size, IsBelow table m n) ∧ R table n := by
  obtain ⟨t, ts, hbegin, ht, hclosed⟩ := exists_tokens isOpen x
  have hno : ¬ ends.contains t = true := by
    refine fun hmem => ?_
    rcases hends t (List.contains_iff_mem.mp hmem) with hno | ⟨hisOpen, rfl⟩
    · exact Bool.false_ne_true (hno.symm.trans ht)
    · exact hclosed hisOpen rfl
  refine (h isOpen indentless fuel s rest htokens hfuel hopen hknows).congr fun n u hnode => ?_
  rw [nodeUnless]
  have hfirst : s.tokens = t :: (ts ++ rest) := by
    rw [htokens, hbegin]
    rfl
  refine Yields.bind ((yields_peek hfirst).bind (.pure (ends.contains t) _)) ?_
  rw [if_neg hno]
  exact hnode

theorem scalar {text : String} {isPlain : Bool}
    (h : IsReading (scalarTag none isPlain text) text P) :
    (Form.scalar text isPlain).Reads known known (GivesScalar P) := by
  rintro isOpen indentless fuel s rest htokens hfuel - hknows
  obtain ⟨fuel, rfl⟩ := Nat.exists_eq_add_one_of_ne_zero (by omega : fuel ≠ 0)
  refine ⟨s.nodes.size, _, s.anchors, yields_node htokens rfl ?_, hknows.past _ _,
    fun table _ hrun => ⟨fun m hm => .inl hm, givesScalar_of_isRun h hrun⟩⟩
  unfold bareNode
  rw [if_neg (by simp)]
  exact (yields_drop htokens).bind (yields_enter _)

theorem binary {text : String} (h : IsReading Tags.binary text P) :
    (Form.binary text).Reads known known (GivesScalar P) := by
  rintro isOpen indentless fuel s rest htokens hfuel - hknows
  obtain ⟨fuel, rfl⟩ := Nat.exists_eq_add_one_of_ne_zero (by omega : fuel ≠ 0)
  exact ⟨s.nodes.size, _, s.anchors, yields_binary htokens hknows.handles, hknows.past _ _,
    fun table _ hrun => ⟨fun m hm => .inl hm, givesScalar_of_isRun h hrun⟩⟩

theorem named {name text : String} {isPlain : Bool} (hnew : name ∉ known)
    (h : IsReading (scalarTag none isPlain text) text P) :
    (Form.named name text isPlain).Reads known (name :: known) (GivesScalar P) := by
  rintro isOpen indentless fuel s rest htokens hfuel - hknows
  obtain ⟨fuel, rfl⟩ := Nat.exists_eq_add_one_of_ne_zero (by omega : fuel ≠ 0)
  have hpast := hknows.past rest [⟨scalarTag none isPlain text, .scalar text⟩]
  refine ⟨s.nodes.size, _, _, yields_named htokens (hknows.names ▸ hnew),
    ⟨hknows.handles, ?_, List.forall_mem_cons.mpr ⟨?_, hpast.scalars⟩⟩,
    fun table _ hrun => ⟨fun m hm => .inl hm, givesScalar_of_isRun h hrun⟩⟩
  · exact congrArg (name :: ·) hknows.names
  · have hrun : IsRun (s.nodes ++ [⟨scalarTag none isPlain text, .scalar text⟩].toArray)
        s.nodes.size [⟨scalarTag none isPlain text, .scalar text⟩] :=
      ⟨s.nodes.toList, [], by simp, by simp⟩
    obtain ⟨v, hscalar, -⟩ := givesScalar_of_isRun h hrun
    exact ⟨v, hscalar⟩

theorem «alias» {name : String} (hname : name ∈ known) (hP : ∀ v, P v) :
    (Form.alias name).Reads known known (GivesScalar P) := by
  rintro isOpen indentless fuel s rest htokens hfuel - hknows
  obtain ⟨fuel, rfl⟩ := Nat.exists_eq_add_one_of_ne_zero (by omega : fuel ≠ 0)
  obtain ⟨a, hfind, v, hscalar⟩ := hknows.exists_find hname
  exact ⟨a.2, [], s.anchors, yields_alias htokens hfind, hknows.past _ _, fun table hkeeps _ =>
    ⟨fun m _ => .inr ⟨v, hkeeps _ _ hscalar⟩, v, hkeeps _ _ hscalar, hP v⟩⟩

end Form.Reads

namespace ItemsRead
variable {known known' names : List String} {Q : List Value → Prop}

theorem nil (hQ : Q []) : ItemsRead known known [] Q := by
  intro fuel s t rest htokens hfuel hknows
  obtain ⟨fuel, rfl⟩ := Nat.exists_eq_add_one_of_ne_zero (by omega : fuel ≠ 0)
  have hnil (table : Array Node) : GivesAll s.nodes.size Q table [] := fun _ _ => ⟨[], .nil, hQ⟩
  rw [blockItems, indentlessItems]
  constructor
  · rintro rfl
    refine .after (yields_accept_other htokens
      (Token.noConfusion · : Token.blockEnd ≠ .blockEntry)) ?_
    rw [if_neg Bool.false_ne_true]
    exact .after (yields_expect htokens) (.pure rfl (hknows.with_tokens rest) hnil)
  · intro ht
    refine .after (yields_accept_other htokens ht) ?_
    rw [if_neg Bool.false_ne_true]
    exact .pure htokens hknows hnil

theorem givesAll_cons {size more : Nat} {R : List Value → Prop} {P : Value → Prop}
    {table : Array Node} {m : Nat} {ms : List Nat} (hsize : size ≤ more)
    (hm : (∀ n < size, IsBelow table n m) ∧ Gives P table m) (hms : GivesAll more R table ms)
    (hQ : ∀ v vs, P v → R vs → Q (v :: vs)) : GivesAll size Q table (m :: ms) := by
  intro n hn
  obtain ⟨hbelow, v, hstands, hv⟩ := hm
  obtain ⟨vs, hall, hvs⟩ := hms n (Nat.lt_of_lt_of_le hn hsize)
  exact ⟨v :: vs, .cons (hbelow n hn) hstands hall, hQ v vs hv hvs⟩

theorem cons {x : Form} {xs : List Form} {P : Value → Prop} {R : List Value → Prop}
    (hx : x.Reads known names (Gives P)) (hxs : ItemsRead names known' xs R)
    (hQ : ∀ v vs, P v → R vs → Q (v :: vs)) : ItemsRead known known' (x :: xs) Q := by
  intro fuel s t rest htokens hfuel hknows
  have hlength : 3 * (x.tokens false).length + 3 * (Form.itemTokens xs).length + 4 ≤ fuel := by
    simp [Form.itemTokens] at hfuel
    omega
  obtain ⟨fuel, rfl⟩ : ∃ n, fuel = n + 2 := ⟨fuel - 2, by omega⟩
  rw [Form.itemTokens, List.cons_append, List.cons_append, List.append_assoc] at htokens
  constructor
  · intro ht
    rw [blockItems]
    refine .after (yields_accept htokens) ?_
    rw [if_pos rfl]
    refine (hx.orEnd false rfl (by simp [opens]) (by omega) (by simp)
      (hknows.with_tokens _)).bind fun m u hrest hknows hsize => ?_
    exact ((hxs (fuel + 1) u t rest hrest (by omega) hknows).1 ht).map
      fun table ms hms hm => givesAll_cons hsize hm hms hQ
  · intro ht
    rw [indentlessItems]
    refine .after (yields_accept htokens) ?_
    rw [if_pos rfl]
    refine (hx.orEnd false rfl (by simp [opens]) (by omega) (by simp)
      (hknows.with_tokens _)).bind fun m u hrest hknows hsize => ?_
    exact ((hxs (fuel + 1) u t rest hrest (by omega) hknows).2 ht).map
      fun table ms hms hm => givesAll_cons hsize hm hms hQ

end ItemsRead

namespace EntriesRead
variable {known known' names names' : List String} {Q : List (Value × Value) → Prop}

theorem nil (hQ : Q []) : EntriesRead known known [] Q := by
  intro fuel s rest htokens hfuel hknows
  obtain ⟨fuel, rfl⟩ := Nat.exists_eq_add_one_of_ne_zero (by omega : fuel ≠ 0)
  rw [blockEntries]
  refine .after (yields_accept_other htokens (Token.noConfusion · : Token.blockEnd ≠ .key)) ?_
  rw [if_neg Bool.false_ne_true]
  exact .after (yields_expect htokens)
    (.pure rfl (hknows.with_tokens rest) fun _ _ _ => ⟨[], .nil, hQ⟩)

theorem cons {k v : Form} {isOpen : Bool} {es : List (Form × Bool × Form)} {K P : Value → Prop}
    {R : List (Value × Value) → Prop} (hk : k.Reads known names (GivesScalar K))
    (hv : v.Reads names names' (Gives P)) (hes : EntriesRead names' known' es R)
    (hQ : ∀ k v ps, K k → P v → R ps → Q ((k, v) :: ps)) :
    EntriesRead known known' ((k, isOpen, v) :: es) Q := by
  intro fuel s rest htokens hfuel hknows
  have hlength : 3 * (k.tokens false).length + 3 * (v.tokens isOpen).length +
      3 * (Form.entryTokens es).length + 7 ≤ fuel := by
    simp [Form.entryTokens] at hfuel
    omega
  obtain ⟨fuel, rfl⟩ : ∃ n, fuel = n + 2 := ⟨fuel - 2, by omega⟩
  have hbegin : s.tokens = .key :: (k.tokens false ++ .value :: (v.tokens isOpen ++
      (Form.entryTokens es ++ .blockEnd :: rest))) := by
    rw [htokens]
    simp [Form.entryTokens]
  have hnext : ∃ t ts, Form.entryTokens es ++ .blockEnd :: rest = t :: ts ∧ t ≠ .blockEntry := by
    cases es with
    | nil => exact ⟨_, _, rfl, by simp⟩
    | cons e es => exact ⟨_, _, rfl, by simp⟩
  rw [blockEntries]
  refine .after (yields_accept hbegin) ?_
  rw [if_pos rfl]
  refine (hk.orEnd false rfl (by simp [opens]) (by omega) (by simp)
    (hknows.with_tokens _)).bind fun i u hrest hknows hsize => ?_
  refine .after (yields_accept hrest) ?_
  rw [if_pos rfl]
  refine (hv.orEnd isOpen rfl (by simp [opens]) (by omega) (fun _ => ⟨rfl, hnext⟩)
    (hknows.with_tokens _)).bind fun m w hrest hknows hmore => ?_
  refine (hes (fuel + 1) w rest hrest (by omega) hknows).map fun table rest hrest hm hi n hn => ?_
  obtain ⟨-, key, hkey, hK⟩ := hi
  obtain ⟨hbelow, value, hvalue, hP⟩ := hm
  have hlt : n < u.nodes.size := Nat.lt_of_lt_of_le hn hsize
  obtain ⟨ps, hall, hps⟩ := hrest n (Nat.lt_of_lt_of_le hlt hmore)
  exact ⟨_, .cons hkey (hbelow n hlt) hvalue hall, hQ key value ps hK hP hps⟩

end EntriesRead

namespace Form.Reads
variable {known known' : List String} {P : Value → Prop}

theorem gives_sequence {Q : List Value → Prop} (hP : ∀ vs, Q vs → P (.list vs)) {s : Composer}
    {table : Array Node} {n : Nat} (h : n = s.nodes.size ∧ ∃ ms,
      table[n]? = some ⟨Tags.seq, .sequence ms⟩ ∧ GivesAll (s.nodes.size + 1) Q table ms) :
    (∀ m < s.nodes.size, IsBelow table m n) ∧ Gives P table n := by
  obtain ⟨rfl, ms, hnode, hms⟩ := h
  obtain ⟨vs, hall, hvs⟩ := hms _ (Nat.lt_succ_self _)
  exact ⟨fun m hm => .inl hm, .list vs, .list hnode hall, hP vs hvs⟩

theorem gives_mapping {Q : List (Value × Value) → Prop} (hP : ∀ ps, Q ps → P (.mapOf ps))
    {s : Composer} {table : Array Node} {n : Nat} (h : n = s.nodes.size ∧ ∃ es,
      table[n]? = some ⟨Tags.map, .mapping es⟩ ∧ GivesEntries (s.nodes.size + 1) Q table es) :
    (∀ m < s.nodes.size, IsBelow table m n) ∧ Gives P table n := by
  obtain ⟨rfl, es, hnode, hes⟩ := h
  obtain ⟨ps, hall, hps⟩ := hes _ (Nat.lt_succ_self _)
  exact ⟨fun m hm => .inl hm, .mapOf ps, .map hnode hall, hP ps hps⟩

theorem composes_begun {α : Type} {tag : String} {content : List α → Content}
    {read : Compose (List α)} {indentless : Bool} {fuel : Nat} {s : Composer} {t : Token}
    {ts rest : List Token} {R : Array Node → List α → Prop}
    (hcontent : ∀ text, content [] ≠ .scalar text) (htokens : s.tokens = t :: ts)
    (ht : isBare t = true)
    (hbare : bareNode true indentless fuel t = drop >>= fun _ => collected tag content read)
    (hread : Composes read ⟨ts, s.failure, s.handles, s.anchors, s.nodes ++ #[⟨tag, content []⟩]⟩
      rest known' R) :
    Composes (node true indentless (fuel + 1)) s rest known' fun table n =>
      n = s.nodes.size ∧ ∃ found, table[n]? = some ⟨tag, content found⟩ ∧ R table found := by
  have hcollected : Composes (collected tag content read) { s with tokens := ts } rest known' _ :=
    composes_collected hcontent hread
  refine Composes.congr (.after (f := fun _ => collected tag content read) (yields_drop htokens)
    hcollected) fun n u h => ?_
  exact yields_node htokens ht (hbare ▸ h)

theorem hollowSequence (hP : P (.list [])) :
    (Form.sequence []).Reads known known (Gives P) := by
  rintro isOpen indentless fuel s rest htokens hfuel - hknows
  obtain ⟨fuel, rfl⟩ : ∃ n, fuel = n + 2 := ⟨fuel - 2, by simp [Form.tokens] at hfuel; omega⟩
  have hread : Composes (flowItems true (fuel + 1)) ⟨.flowSequenceEnd :: rest, s.failure, s.handles,
      s.anchors, s.nodes ++ #[⟨Tags.seq, .sequence []⟩]⟩ rest known
      (GivesAll (s.nodes.size + 1) (· = [])) := by
    rw [flowItems]
    refine .after (yields_accept rfl) ?_
    rw [if_pos rfl]
    exact .pure rfl ((hknows.past _ [⟨Tags.seq, .sequence []⟩]).with_tokens rest)
      fun _ _ _ => ⟨[], .nil, rfl⟩
  refine (composes_begun (by simp) htokens rfl ?_ hread).mono fun table n h =>
    gives_sequence (fun vs hvs => hvs ▸ hP) h
  unfold bareNode
  rw [if_neg (by simp)]

theorem hollowMapping (hP : P (.mapOf [])) :
    (Form.mapping []).Reads known known (Gives P) := by
  rintro isOpen indentless fuel s rest htokens hfuel - hknows
  obtain ⟨fuel, rfl⟩ : ∃ n, fuel = n + 2 := ⟨fuel - 2, by simp [Form.tokens] at hfuel; omega⟩
  have hread : Composes (flowEntries true (fuel + 1)) ⟨.flowMappingEnd :: rest, s.failure, s.handles,
      s.anchors, s.nodes ++ #[⟨Tags.map, .mapping []⟩]⟩ rest known
      (GivesEntries (s.nodes.size + 1) (· = [])) := by
    rw [flowEntries]
    refine .after (yields_accept rfl) ?_
    rw [if_pos rfl]
    exact .pure rfl ((hknows.past _ [⟨Tags.map, .mapping []⟩]).with_tokens rest)
      fun _ _ _ => ⟨[], .nil, rfl⟩
  refine (composes_begun (by simp) htokens rfl ?_ hread).mono fun table n h =>
    gives_mapping (fun ps hps => hps ▸ hP) h
  unfold bareNode
  rw [if_neg (by simp)]

theorem sequence {x : Form} {xs : List Form} {Q : List Value → Prop}
    (hitems : ItemsRead known known' (x :: xs) Q) (hP : ∀ vs, Q vs → P (.list vs)) :
    (Form.sequence (x :: xs)).Reads known known' (Gives P) := by
  intro isOpen indentless fuel s rest htokens hfuel hopen hknows
  obtain ⟨fuel, rfl⟩ := Nat.exists_eq_add_one_of_ne_zero (by omega : fuel ≠ 0)
  have hlength : 3 * (Form.itemTokens (x :: xs)).length + 1 ≤ fuel := by
    cases isOpen <;>
    · simp [Form.tokens] at hfuel
      omega
  cases isOpen with
  | true =>
    obtain ⟨rfl, t, ts, rfl, ht⟩ := hopen rfl
    have hread := (hitems fuel (s.past s.tokens [⟨Tags.seq, .sequence []⟩] s.anchors) t ts htokens
      hlength (hknows.past _ _)).2 ht
    rw [s.size_past] at hread
    refine Composes.congr ((composes_collected (by simp) hread).mono fun table n h =>
      gives_sequence hP h) fun n u h => yields_node htokens rfl ?_
    unfold bareNode
    rw [if_pos (by simp)]
    exact h
  | false =>
    have hbegin : s.tokens =
        .blockSequence :: (Form.itemTokens (x :: xs) ++ .blockEnd :: rest) := by
      rw [htokens]
      simp [Form.tokens]
    have hread := (hitems fuel (s.past _ [⟨Tags.seq, .sequence []⟩] s.anchors) .blockEnd rest rfl
      hlength (hknows.past _ _)).1 rfl
    rw [s.size_past] at hread
    refine (composes_begun (by simp) hbegin rfl ?_ hread).mono fun table n h => gives_sequence hP h
    unfold bareNode
    rw [if_neg (by simp)]
    rfl

theorem mapping {e : Form × Bool × Form} {es : List (Form × Bool × Form)}
    {Q : List (Value × Value) → Prop} (hentries : EntriesRead known known' (e :: es) Q)
    (hP : ∀ ps, Q ps → P (.mapOf ps)) :
    (Form.mapping (e :: es)).Reads known known' (Gives P) := by
  rintro isOpen indentless fuel s rest htokens hfuel - hknows
  obtain ⟨fuel, rfl⟩ := Nat.exists_eq_add_one_of_ne_zero (by omega : fuel ≠ 0)
  have hbegin : s.tokens =
      .blockMapping :: (Form.entryTokens (e :: es) ++ .blockEnd :: rest) := by
    rw [htokens]
    simp [Form.tokens]
  have hlength : 3 * (Form.entryTokens (e :: es)).length + 1 ≤ fuel := by
    simp [Form.tokens] at hfuel
    omega
  have hread := hentries fuel (s.past _ [⟨Tags.map, .mapping []⟩] s.anchors) rest rfl hlength
    (hknows.past _ _)
  rw [s.size_past] at hread
  refine (composes_begun (by simp) hbegin rfl ?_ hread).mono fun table n h => gives_mapping hP h
  unfold bareNode
  rw [if_neg (by simp)]
  rfl

end Form.Reads

/-! ### Documents -/

theorem Compose.yields_document {x : Form} {known : List String} {R : Array Node → Nat → Prop}
    (h : x.Reads [] known R) {fuel : Nat} (hfuel : 3 * (x.tokens false).length + 2 ≤ fuel) :
    ∃ (n : Nat) (more : List Node) (u : Composer), u.nodes = more.toArray ∧ R more.toArray n ∧
      Yields (document fuel) ⟨x.tokens false ++ [.streamEnd], none, [], [], #[]⟩ (some n) u := by
  obtain ⟨fuel, rfl⟩ := Nat.exists_eq_add_one_of_ne_zero (by omega : fuel ≠ 0)
  obtain ⟨t, ts, htokens, ht, -⟩ := exists_tokens false x
  have hfirst : x.tokens false ++ [.streamEnd] = t :: (ts ++ [.streamEnd]) := by
    rw [htokens]
    rfl
  let handles := [("!", "!"), ("!!", Tags.common "")]
  let s : Composer := ⟨x.tokens false ++ [.streamEnd], none, handles, [], #[]⟩
  obtain ⟨n, more, anchors, hnode, -, hR⟩ := h false false (fuel + 1) s [.streamEnd] rfl hfuel nofun
    ⟨rfl, rfl, List.forall_mem_nil _⟩
  have hends : Yields (skipDocumentEnds (fuel + 1)) (s.past [.streamEnd] more anchors) ()
      (s.past [.streamEnd] more anchors) := by
    rw [skipDocumentEnds]
    refine (yields_accept_other rfl (nofun : Token.streamEnd ≠ .documentEnd)).bind ?_
    rw [if_neg Bool.false_ne_true]
    exact .pure _ _
  have hscalars : Keeps s.nodes more.toArray := fun m v hscalar => by
    cases hscalar.lt_size
  refine ⟨n, more, { s.past [.streamEnd] more anchors with tokens := [] },
    by simp [s, Composer.past], (hR _ hscalars ⟨[], [], by simp, rfl⟩).2, ?_⟩
  unfold document
  refine (yields_peek hfirst).bind ?_
  have hdirectives : Yields (directives false (fuel + 1))
      ⟨x.tokens false ++ [.streamEnd], none, [], [], #[]⟩ () s := by
    rw [directives]
    refine (yields_peek hfirst).bind ?_
    cases t <;> first | rfl | cases ht
  cases t
  case scalar | anchor | tag | «alias» | flowSequence | flowMapping | blockSequence | blockMapping |
      blockEntry =>
    refine hdirectives.bind ?_
    exact hnode.bind (hends.bind ((yields_expect rfl).bind (.pure _ _)))
  all_goals cases ht

/-- The tokens of a form are composed to a table with a root that is as the form is read. -/
theorem Node.exists_ofTokens {x : Form} {known : List String} {R : Array Node → Nat → Prop}
    (h : x.Reads [] known R) : ∃ table n,
      Node.ofTokens ⟨x.tokens false ++ [.streamEnd], none⟩ = .ok (table, some n) ∧ R table n := by
  obtain ⟨n, more, u, hu, hR, hyields⟩ := Compose.yields_document h
    (by simp; omega : 3 * (x.tokens false).length + 2 ≤
      4 * (x.tokens false ++ [Token.streamEnd]).length + 8)
  refine ⟨more.toArray, n, ?_, hR⟩
  unfold Node.ofTokens
  dsimp only
  rw [hyields, ← hu]
  rfl

end FilterTree.Yaml
