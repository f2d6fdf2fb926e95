import FilterTree.Proofs.Yaml.Named

/-! Documents as they are written. The text of a layout is read as the tokens of a form, which stands for
a value with the property that the layout is drawn for. -/

namespace FilterTree.Yaml

namespace Sheet
variable {outer : Option Nat} {inMapping isKey : Bool} {s : Sheet}

theorem write_hollow_sequence :
    write outer inMapping isKey (.sequence [] none) s = s.onPage (hollow "[" "]") := by
  rw [write]
  rfl

theorem write_hollow_mapping :
    write outer inMapping isKey (.mapping [] none) s = s.onPage (hollow "\x7b" "\x7d") := by
  rw [write]
  rfl

theorem write_sequence (x : Sketch) (xs : List Sketch) :
    write outer inMapping isKey (.sequence (x :: xs) none) s =
      writeItems (if inMapping && !s.page.atIndent then outer.getD 0 else nested outer) (x :: xs)
        s := by
  rw [write]
  rfl

theorem write_mapping (e : Sketch × Sketch) (es : List (Sketch × Sketch)) :
    write outer inMapping isKey (.mapping (e :: es) none) s =
      writeEntries (nested outer) (e :: es) s := by
  rw [write]
  rfl

theorem adds_hollow (left right : Char) (p : Page) :
    p.Adds (p.gap ++ [left, right]) (hollow (String.singleton left) (String.singleton right) p) := by
  have hadds := (p.adds_spaced.trans (p.spaced.adds_mark (String.singleton left) true false)).trans
    (Page.adds_mark _ (String.singleton right) false false)
  simpa [hollow] using hadds

theorem indent_nested {afterMark : Bool} {column : Nat} {p : Page} (h : p.IsAfter afterMark column) :
    p.Adds (Lexer.Spells.lead afterMark column) (p.indent (column + 2)) ∧
      (p.indent (column + 2)).IsAt (column + 2) := by
  cases afterMark with
  | true =>
    have hcolumn := h.column_eq rfl
    have hindent := Page.indent_inline h.atIndent (by omega : p.column ≤ column + 2) (by omega)
    rwa [hcolumn, Nat.add_sub_add_left] at hindent
  | false => exact Page.indent_line (.of_not_atIndent h.atIndent _)

def writeKey (column : Nat) (k : Sketch) (s : Sheet) : Sheet :=
  if s.isSimpleKey k then
    (write (some column) true true k s).onPage (·.mark ":" false false)
  else
    (write (some column) true false k (s.onPage (·.spaced.mark "?" false true))).onPage
      fun p => (p.indent column).spaced.mark ":" false true

theorem writeEntries_cons (column : Nat) (k v : Sketch) (es : List (Sketch × Sketch)) (s : Sheet) :
    writeEntries column ((k, v) :: es) s =
      writeEntries column es (write (some column) true false v
        (writeKey column k (s.onPage (·.indent column)))) := by
  rw [writeEntries]
  rfl

/-! ### Values, items and entries -/

/-- What is written of a value is read as one with a property. Where it is open, it is on the line of its
key. -/
def ReadsBack (column : Nat) (isOpen : Bool) (P : Value → Prop) (x : Sketch) : Prop :=
  ∀ (inMapping : Bool) (s : Sheet), s.page.IsAfter (!isOpen) column →
    (isOpen = true → inMapping = true) → s.IsFair → ∃ (w : List Char) (f : Form),
      Goes s.page w (write (some column) inMapping false x s) ∧
      Lexer.Spells (!isOpen) column w (f.tokens isOpen) ∧
      f.Reads s.names (write (some column) inMapping false x s).names (Gives P)

def ItemsReadBack (column : Nat) (Q : List Value → Prop) (xs : List Sketch) : Prop :=
  ∀ (p : Page) (s : Sheet) (l : List Char), xs ≠ [] → p.Adds l (s.page.indent column) →
    (s.page.indent column).IsAt column → s.IsFair → ∃ (w : List Char) (f : Form) (fs : List Form),
      Goes p (l ++ '-' :: ' ' :: w) (writeItems column xs s) ∧
      Lexer.SpellsBlock .blockSequence column ('-' :: ' ' :: w) (Form.itemTokens (f :: fs)) ∧
      ItemsRead s.names (writeItems column xs s).names (f :: fs) Q

def EntriesReadBack (column : Nat) (Q : List (Value × Value) → Prop) (es : List (Sketch × Sketch)) :
    Prop :=
  ∀ (p : Page) (s : Sheet) (l : List Char), es ≠ [] → 0 < column →
    p.Adds l (s.page.indent column) → (s.page.indent column).IsAt column → s.IsFair →
    ∃ (w : List Char) (e : Form × Bool × Form) (fs : List (Form × Bool × Form)),
      Goes p (l ++ w) (writeEntries column es s) ∧
      Lexer.SpellsBlock .blockMapping column w (Form.entryTokens (e :: fs)) ∧
      EntriesRead s.names (writeEntries column es s).names (e :: fs) Q

variable {column : Nat} {isOpen : Bool} {P : Value → Prop}

theorem readsBack_scalar {x : Sketch} (h : DrawsScalar column false P x) :
    ReadsBack column isOpen P x := by
  intro inMapping s hafter _ hs
  obtain ⟨w, f, hgoes, hspells, hreads⟩ := exists_scalar isOpen h inMapping hafter hs
  exact ⟨w, f, hgoes, hspells, hreads.mono fun _ _ hn => hn.gives⟩

theorem readsBack_sequence {items : List Sketch} {Q : List Value → Prop}
    (hnil : items = [] → Q [])
    (h : ItemsReadBack (if isOpen then column else column + 2) Q items)
    (hP : ∀ vs, Q vs → P (.list vs)) : ReadsBack column isOpen P (.sequence items none) := by
  intro inMapping s hafter hmapping hs
  cases items with
  | nil =>
    have hadds := adds_hollow '[' ']' s.page
    rw [hafter.gap] at hadds
    rw [write_hollow_sequence]
    exact ⟨_, .sequence [], ⟨hadds.closes (Bool.and_false _), hs⟩, .hollowSequence,
      .hollowSequence (hP [] (hnil rfl))⟩
  | cons x xs =>
    rw [write_sequence]
    cases isOpen with
    | false =>
      obtain ⟨hlead, hat⟩ := indent_nested hafter
      obtain ⟨w, f, fs, hgoes, hspells, hreads⟩ :=
        h s.page s _ (List.cons_ne_nil x xs) hlead hat hs
      rw [hafter.atIndent, Bool.not_false, Bool.not_true, Bool.and_false]
      exact ⟨_, .sequence (f :: fs), hgoes, .nested hspells, .sequence hreads hP⟩
    | true =>
      obtain ⟨hline, hat⟩ := Page.indent_line (.of_not_atIndent hafter.atIndent column)
      obtain ⟨w, f, fs, hgoes, hspells, hreads⟩ :=
        h s.page s _ (List.cons_ne_nil x xs) hline hat hs
      rw [hafter.atIndent, hmapping rfl]
      exact ⟨_, .sequence (f :: fs), hgoes, .indentless hspells, .sequence hreads hP⟩

theorem readsBack_mapping {entries : List (Sketch × Sketch)} {Q : List (Value × Value) → Prop}
    (hnil : entries = [] → Q []) (h : EntriesReadBack (column + 2) Q entries)
    (hP : ∀ ps, Q ps → P (.mapOf ps)) : ReadsBack column isOpen P (.mapping entries none) := by
  intro inMapping s hafter _ hs
  cases entries with
  | nil =>
    have hadds := adds_hollow '\x7b' '\x7d' s.page
    rw [hafter.gap] at hadds
    rw [write_hollow_mapping]
    exact ⟨_, .mapping [], ⟨hadds.closes (Bool.and_false _), hs⟩, .hollowMapping,
      .hollowMapping (hP [] (hnil rfl))⟩
  | cons e es =>
    obtain ⟨hlead, hat⟩ := indent_nested hafter
    obtain ⟨w, f, fs, hgoes, hspells, hreads⟩ :=
      h s.page s _ (List.cons_ne_nil e es) (Nat.succ_pos _) hlead hat hs
    rw [write_mapping]
    exact ⟨_, .mapping (f :: fs), hgoes, .nested hspells, .mapping hreads hP⟩

theorem itemsReadBack_cons {Q R : List Value → Prop} {x : Sketch} {xs : List Sketch}
    (hx : ReadsBack column false P x) (hnil : xs = [] → R []) (hxs : ItemsReadBack column R xs)
    (hQ : ∀ v vs, P v → R vs → Q (v :: vs)) : ItemsReadBack column Q (x :: xs) := by
  rintro p s l - hlead hat hs
  obtain ⟨hdash, hafter⟩ := hat.mark '-'
  obtain ⟨v, f, hgoes, hspells, hreads⟩ := hx false
    (s.onPage fun p => (p.indent column).spaced.mark "-" false true) hafter nofun hs
  obtain ⟨v, rfl⟩ := hspells.space rfl
  have hitem := Goes.after (hlead.trans hdash) hgoes
  rw [writeItems]
  cases xs with
  | nil =>
    rw [writeItems]
    refine ⟨v, f, [], by simpa using hitem, ?_, .cons hreads (.nil (hnil rfl)) hQ⟩
    simpa [Form.itemTokens] using Lexer.SpellsBlock.item hspells
  | cons y ys =>
    obtain ⟨hline, hat⟩ := hitem.closes column
    obtain ⟨w, g, gs, hmore, hrest, hothers⟩ :=
      hxs p _ _ (List.cons_ne_nil y ys) hline hat hitem.fair
    exact ⟨_, f, g :: gs, by simpa using hmore, (Lexer.SpellsBlock.item hspells).append hrest,
      .cons hreads hothers hQ⟩

theorem exists_writeKey {K : Value → Prop} {k : Sketch} (hcolumn : 0 < column)
    (h : DrawsScalar column k.isShort K k) (hat : s.page.IsAt column) (hs : s.IsFair) :
    ∃ (isOpen : Bool) (l : List Char) (f : Form), (k.identity = none → isOpen = k.isShort) ∧
      s.page.Adds l (writeKey column k s).page ∧
      (writeKey column k s).page.IsAfter (!isOpen) column ∧ (writeKey column k s).IsFair ∧
      f.Reads s.names (writeKey column k s).names (GivesScalar K) ∧
      ∀ w ts, Lexer.Spells (!isOpen) column w ts →
        Lexer.SpellsBlock .blockMapping column (l ++ w) (.key :: (f.tokens false ++ .value :: ts)) := by
  have hplaced := drawsScalar_isSimpleKey h s
  have hshort := isSimpleKey_eq s (k := k)
  unfold writeKey
  cases hsimple : s.isSimpleKey k with
  | true =>
    rw [hsimple] at hplaced hshort
    obtain ⟨u, f, hadds, hfair, hspells, hreads⟩ :=
      exists_key hcolumn hplaced hsimple hat.afterBlank hs
    refine ⟨true, u ++ [':'], f, hshort, hadds.trans (Page.adds_mark _ ":" false false),
      ⟨rfl, Bool.and_false _, nofun⟩, hfair, hreads, fun w ts hw => ?_⟩
    simpa using Lexer.SpellsBlock.shortEntry hcolumn hspells hw
  | false =>
    rw [hsimple] at hplaced hshort
    obtain ⟨hmark, hafter⟩ := hat.mark '?'
    obtain ⟨u, f, hgoes, hspells, hreads⟩ := exists_scalar false
      (s := s.onPage (·.spaced.mark "?" false true)) hplaced true hafter hs
    obtain ⟨u, rfl⟩ := hspells.space rfl
    obtain ⟨hline, hat⟩ := hgoes.closes column
    obtain ⟨hcolon, hafter⟩ := hat.mark ':'
    refine ⟨false, _, f, hshort, (hmark.trans hline).trans hcolon, hafter, hgoes.fair, hreads,
      fun w ts hw => ?_⟩
    simpa using Lexer.SpellsBlock.longEntry hcolumn hspells hw

theorem entriesReadBack_cons {K : Value → Prop} {Q R : List (Value × Value) → Prop} {k v : Sketch}
    {es : List (Sketch × Sketch)} (hk : DrawsScalar column k.isShort K k)
    (hv : ∀ isOpen, (k.identity = none → isOpen = k.isShort) → ReadsBack column isOpen P v)
    (hnil : es = [] → R []) (hes : EntriesReadBack column R es)
    (hQ : ∀ k v ps, K k → P v → R ps → Q ((k, v) :: ps)) :
    EntriesReadBack column Q ((k, v) :: es) := by
  rintro p s l - hcolumn hlead hat hs
  obtain ⟨isOpen, u, f, hopen, hkey, hafter, hfair, hreads, hspells⟩ :=
    exists_writeKey (s := s.onPage (·.indent column)) hcolumn hk hat hs
  obtain ⟨w, g, hgoes, hvalue, hgives⟩ := hv isOpen hopen true _ hafter (fun _ => rfl) hfair
  have hentry := Goes.after (hlead.trans hkey) hgoes
  have hblock := hspells w _ hvalue
  rw [List.append_assoc] at hentry
  rw [writeEntries_cons]
  cases es with
  | nil =>
    rw [writeEntries]
    refine ⟨_, (f, isOpen, g), [], hentry, ?_, .cons hreads hgives (.nil (hnil rfl)) hQ⟩
    simpa [Form.entryTokens] using hblock
  | cons e es =>
    obtain ⟨hline, hat⟩ := hentry.closes column
    obtain ⟨v, e', es', hmore, hrest, hothers⟩ :=
      hes p _ _ (List.cons_ne_nil e es) hcolumn hline hat hentry.fair
    refine ⟨_, (f, isOpen, g), e' :: es', by simpa using hmore, ?_,
      .cons hreads hgives hothers hQ⟩
    simpa [Form.entryTokens] using hblock.append hrest

end Sheet

theorem DrawsAll.nil_of_nil {column : Nat} {Q : List Value → Prop} {xs : List Sketch}
    (h : DrawsAll column Q xs) (hxs : xs = []) : Q [] := by
  subst hxs
  cases h with
  | nil hQ => exact hQ

theorem DrawsEntries.nil_of_nil {column : Nat} {Q : List (Value × Value) → Prop}
    {es : List (Sketch × Sketch)} (h : DrawsEntries column Q es) (hes : es = []) : Q [] := by
  subst hes
  cases h with
  | nil hQ => exact hQ

mutual

theorem Draws.readsBack {column : Nat} {isOpen : Bool} {P : Value → Prop} {x : Sketch}
    (h : Draws column isOpen P x) : Sheet.ReadsBack column isOpen P x :=
  match h with
  | .scalar h => Sheet.readsBack_scalar h
  | .list h hP => Sheet.readsBack_sequence h.nil_of_nil h.itemsReadBack hP
  | .map h hP => Sheet.readsBack_mapping h.nil_of_nil h.entriesReadBack hP

theorem DrawsAll.itemsReadBack {column : Nat} {Q : List Value → Prop} {xs : List Sketch}
    (h : DrawsAll column Q xs) : Sheet.ItemsReadBack column Q xs :=
  match h with
  | .nil _ => fun _ _ _ hne => absurd rfl hne
  | .cons hx hxs hQ =>
    Sheet.itemsReadBack_cons hx.readsBack hxs.nil_of_nil hxs.itemsReadBack hQ

theorem DrawsEntries.entriesReadBack {column : Nat} {Q : List (Value × Value) → Prop}
    {es : List (Sketch × Sketch)} (h : DrawsEntries column Q es) :
    Sheet.EntriesReadBack column Q es :=
  match h with
  | .nil _ => fun _ _ _ hne => absurd rfl hne
  | .cons hk hv hes hQ =>
    Sheet.entriesReadBack_cons hk (fun isOpen hopen => (hv isOpen hopen).readsBack)
      hes.nil_of_nil hes.entriesReadBack hQ

end

/-! ### Documents -/

namespace Lexer

theorem stands_start {u : List Char} (hu : Begins u) : (start u).Stands u 0 true (-1) [] [] :=
  stands_spaces (x := start u) rfl (n := 0) rfl hu nofun

theorem ofChars_of_turns {u : List Char} {y : Lexer} {indent : Int} {outer : List Int}
    {ts us : List Token} (hallowed : ∀ ch ∈ u, isAllowed ch = true) (hturns : Turns (start u) y)
    (hy : y.Stands [] 0 true indent outer ts) (hindent : indent ≤ 0)
    (hclose : ∀ c, (amid c true indent outer ts).close (-1) = amid c true (-1) [] us) :
    Tokens.ofChars u = ⟨us ++ [.streamEnd], none⟩ := by
  obtain ⟨fuel, hfuel, hrun⟩ := run_of_turns hturns (u.length + 2) (by simp [start, Cursor.start])
  obtain ⟨fuel, rfl⟩ := Nat.exists_eq_add_one_of_ne_zero (Nat.ne_zero_of_lt hfuel)
  rw [Tokens.ofChars, if_pos (List.all_eq_true.mpr hallowed), hrun, hy.run_end hindent hclose]

theorem follows_nil : Follows 0 [] :=
  ⟨⟨rfl, nofun, nofun⟩, fun _ => rfl⟩

theorem ofChars_of_spells {w : List Char} {ts : List Token}
    (h : SpellsBlock .blockSequence 0 w ts) :
    Tokens.ofChars (w ++ ['\n']) = ⟨.blockSequence :: ts ++ [.blockEnd, .streamEnd], none⟩ := by
  obtain ⟨y, hturns, hy⟩ := h.read (start (w ++ ['\n'])) (-1) [] [] 0 []
    (stands_start (h.follows _).toBegins) (by omega) follows_nil (Nat.le_refl 0)
  have hclose (c : Cursor) :
      (amid c true 0 [-1] (.blockSequence :: ts)).close (-1) =
        amid c true (-1) [] (.blockSequence :: ts ++ [.blockEnd]) := by
    rw [close_amid_beyond (by omega)]
    exact close_of_le (Int.le_refl _)
  rw [ofChars_of_turns (fun ch hch => ?_) hturns hy (Int.le_refl 0) hclose]
  · simp
  · exact List.forall_mem_append.mpr ⟨h.allowed, List.forall_mem_singleton.mpr rfl⟩ ch hch

theorem ofChars_hollow :
    Tokens.ofChars ['[', ']', '\n'] = ⟨[.flowSequence, .flowSequenceEnd, .streamEnd], none⟩ := by
  have hbegins : Begins ['[', ']', '\n'] := ⟨rfl, by simp, by simp⟩
  obtain ⟨y, hturns, hy⟩ := (stands_start hbegins).hollowSequence (n := 0) (u := []) (by omega)
    follows_nil.toBegins
  rw [ofChars_of_turns (List.all_eq_true.mp rfl) hturns hy (by omega) fun c =>
    close_of_le (Int.le_refl _)]
  rfl

end Lexer

/-- What is written of a list of things is one line or several, which are read as the tokens of a form.
It begins with the mark of an item, unless the list is empty. -/
theorem DrawsAll.exists_write {Q : List Value → Prop} {items : List Sketch}
    (h : DrawsAll 0 Q items) : ∃ (cs : List Char) (f : Form) (known : List String),
      (write (.sequence items none)).toList = cs ++ ['\n'] ∧ EndsInLine cs ∧
      (items = [] ∧ cs = ['[', ']'] ∨ ∃ w, cs = '-' :: ' ' :: w) ∧
      Tokens.ofChars (cs ++ ['\n']) = ⟨f.tokens false ++ [.streamEnd], none⟩ ∧
      f.Reads [] known (Gives fun v => ∃ vs, v = .list vs ∧ Q vs) := by
  have hwrap : ∀ vs, Q vs → ∃ vs', Value.list vs = .list vs' ∧ Q vs' := fun vs hvs => ⟨vs, rfl, hvs⟩
  unfold write
  dsimp only
  cases items with
  | nil =>
    obtain ⟨htext, -⟩ := (Sheet.adds_hollow '[' ']' .empty).closes rfl 0
    rw [Sheet.write_hollow_sequence]
    exact ⟨['[', ']'], .sequence [], [], htext, ⟨['['], ']', rfl, by decide⟩, .inl ⟨rfl, rfl⟩,
      Lexer.ofChars_hollow, .hollowSequence (hwrap [] (h.nil_of_nil rfl))⟩
  | cons x xs =>
    obtain ⟨hlead, hat⟩ := Page.indent_inline (p := .empty) rfl (Nat.le_refl 0) (fun _ => rfl)
    obtain ⟨w, f, fs, hgoes, hspells, hreads⟩ := h.itemsReadBack .empty
      ⟨.empty, ((Sketch.sequence (x :: xs) none).survey ⟨[], []⟩).again, []⟩ _
      (List.cons_ne_nil x xs) hlead hat (List.forall_mem_nil _)
    obtain ⟨htext, -⟩ := hgoes.closes 0
    have htokens : (Form.sequence (f :: fs)).tokens false ++ [.streamEnd] =
        .blockSequence :: Form.itemTokens (f :: fs) ++ [.blockEnd, .streamEnd] := by
      simp [Form.tokens]
    rw [Sheet.write_sequence]
    refine ⟨_, .sequence (f :: fs), _, htext, hspells.ends, .inr ⟨w, rfl⟩, ?_,
      .sequence hreads hwrap⟩
    rw [htokens]
    exact Lexer.ofChars_of_spells hspells

end FilterTree.Yaml
