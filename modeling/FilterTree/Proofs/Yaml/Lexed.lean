import FilterTree.Proofs.Yaml.Ink
import FilterTree.Proofs.Yaml.Turn

/-! Tokens as they are written: what each of them is taken for, and where that leaves the lexer. -/

namespace FilterTree.Yaml

namespace Cursor

theorem line_le_next (c : Cursor) : c.line ≤ c.next.line := by
  unfold next
  split
  · exact Nat.le_refl _
  · split
    · exact Nat.le_succ _
    · split <;> exact Nat.le_refl _

theorem line_le_advance (n : Nat) (c : Cursor) : c.line ≤ (c.advance n).line := by
  induction n generalizing c with
  | zero => exact Nat.le_refl _
  | succ n ih => exact Nat.le_trans c.line_le_next (ih c.next)

theorem line_lt_next {c : Cursor} {v : List Char} (h : c.rest = '\n' :: v) :
    c.line < c.next.line := by
  unfold next
  rw [h]
  exact Nat.lt_succ_self c.line

theorem advance_line {c : Cursor} {w u : List Char} {n : Nat}
    (h : c.rest = w ++ '\n' :: (List.replicate n ' ' ++ u)) :
    (c.advance (w.length + (n + 1))).rest = u ∧ (c.advance (w.length + (n + 1))).column = n ∧
      c.line < (c.advance (w.length + (n + 1))).line := by
  have hend := rest_advance_of_append h
  have hspaces := rest_next_of_cons hend
  rw [← advance_add]
  refine ⟨rest_advance_spaces (c := (c.advance w.length).next) hspaces, column_advance_line hend, ?_⟩
  calc c.line ≤ (c.advance w.length).line := line_le_advance w.length c
    _ < (c.advance w.length).next.line := line_lt_next hend
    _ ≤ ((c.advance w.length).advance (n + 1)).line := line_le_advance n _

end Cursor

namespace Lexer

theorem begins_append {column : Nat} {w : List Char} {text : String} {isPlain : Bool}
    (h : Inks column w text isPlain) (v : List Char) : Begins (w ++ v) := by
  cases h with
  | plain h _ =>
    obtain ⟨c, more, rfl, hwhite, hcomment, hmark⟩ := h.exists_cons
    exact ⟨hwhite, fun h => hcomment (Option.some.inj h), fun h => hmark (Option.some.inj h)⟩
  | @quoted double w s _ => cases double <;> exact ⟨rfl, by simp [quoteMark], by simp [quoteMark]⟩

def noted (c : Cursor) (allowed : Bool) (indent : Int) (ts : List Token) : List Candidate :=
  if allowed then [⟨0, ts.length, decide (indent = c.column), c.index, c.line, c.column⟩] else []

/-- The lexer where some keys may have begun. -/
def holding (x : Lexer) (ks : List Candidate) : Lexer :=
  { x with candidates := ks }

section Scalars
variable {c : Cursor} {allowed : Bool} {indent : Int} {outer : List Int} {ts : List Token}
  {ks : List Candidate}

theorem noteCandidate_holding (hks : allowed = true → ks = []) :
    ((amid c allowed indent outer ts).holding ks).noteCandidate =
      .ok ((amid c allowed indent outer ts).holding (ks ++ noted c allowed indent ts)) := by
  cases allowed with
  | false =>
    rw [noted, if_neg Bool.false_ne_true, List.append_nil]
    rfl
  | true =>
    rw [hks rfl]
    change (amid c true indent outer ts).noteCandidate = _
    unfold noteCandidate
    rw [if_neg (by simp [amid]), dropCandidate_amid]
    simp [amid, noted, holding]
    rfl

theorem mem_noted {k : Candidate} (h : k ∈ noted c allowed indent ts) :
    k = ⟨0, ts.length, decide (indent = c.column), c.index, c.line, c.column⟩ := by
  unfold noted at h
  split at h
  · exact List.mem_singleton.mp h
  · cases h

theorem not_mem_of_isMark {ch : Char} {v : List Char} (h : Features.isMark ch v = false) :
    ch ∉ ['#', ',', '[', ']', '\x7b', '\x7d', '&', '*', '!', '|', '>', '\'', '"', '%', '@', '`'] ∧
      (ch = '?' ∨ ch = ':' ∨ ch = '-' → startsBlank v = false) := by
  obtain ⟨hmark, hblank⟩ := Bool.or_eq_false_iff.mp h
  refine ⟨fun hmem => Bool.eq_false_iff.mp hmark (List.contains_iff_mem.mpr hmem), fun hch => ?_⟩
  rcases hch with rfl | rfl | rfl <;> simpa using hblank

theorem beginsPlain_of_isMark {ch : Char} {v : List Char} (hwhite : isWhite ch = false)
    (h : Features.isMark ch v = false) : beginsPlain false (ch :: v) = true := by
  obtain ⟨hmark, hblank⟩ := not_mem_of_isMark h
  have hwhite : ¬ (isBlank ch || isBreak ch) = true := Bool.eq_false_iff.mp hwhite
  unfold beginsPlain
  dsimp only
  rw [if_neg hwhite]
  split
  · rfl
  · next hspecial =>
    have hthree : ch = '?' ∨ ch = ':' ∨ ch = '-' := by
      simp at hspecial hmark
      grind
    rw [hblank hthree]
    rcases hthree with rfl | rfl | rfl <;> rfl

theorem next_plain {ch : Char} {v : List Char} (hc : c.rest = ch :: v) (hcolumn : c.column ≠ 0)
    (hwhite : isWhite ch = false) (h : Features.isMark ch v = false) :
    ((amid c allowed indent outer ts).holding ks).next =
      ((amid c allowed indent outer ts).holding ks).plainScalar := by
  obtain ⟨hmark, hblank⟩ := not_mem_of_isMark h
  have hbegins := beginsPlain_of_isMark hwhite h
  simp only [List.mem_cons, not_or] at hmark
  have hdash : ¬ (ch = '-' ∧ startsBlank v = true) := fun ⟨hch, hv⟩ =>
    absurd ((hblank (.inr (.inr hch))).symm.trans hv) Bool.false_ne_true
  have hquestion : ¬ (ch = '?' ∧ startsBlank v = true) := fun ⟨hch, hv⟩ =>
    absurd ((hblank (.inl hch)).symm.trans hv) Bool.false_ne_true
  have hcolon : ¬ (ch = ':' ∧ startsBlank v = true) := fun ⟨hch, hv⟩ =>
    absurd ((hblank (.inr (.inl hch))).symm.trans hv) Bool.false_ne_true
  have hrest : ((amid c allowed indent outer ts).holding ks).cursor.rest = ch :: v := hc
  have hflow : ((amid c allowed indent outer ts).holding ks).flow = 0 := rfl
  have hcol : ((amid c allowed indent outer ts).holding ks).cursor.column ≠ 0 := hcolumn
  unfold next
  simp only [hrest, hflow, hcol, hmark, hdash, hquestion, hcolon, hbegins, ne_eq,
    not_true_eq_false, false_and, and_false, or_false, false_or, decide_false, if_false, if_true]

theorem atMarker_quote (double : Bool) (v : List Char) :
    atMarker (quoteMark double :: v) = false := by
  cases double <;> exact Quoted.atMarker_of_not (by decide) (by decide)

theorem next_quoted {double : Bool} {v : List Char} (hc : c.rest = quoteMark double :: v) :
    ((amid c allowed indent outer ts).holding ks).next =
      ((amid c allowed indent outer ts).holding ks).nodePart Quoted.read (.scalar · false) := by
  have hmarker := atMarker_quote double v
  cases double <;> simp [next, amid, holding, hc, quoteMark] <;>
    exact fun _ h => absurd (hmarker.symm.trans h) Bool.false_ne_true

theorem plainScalar_of_read (hks : allowed = true → ks = []) {text : String} {d : Cursor}
    {ended : Bool} (h : Plain.read false (indent + 1) c = (text, d, ended)) :
    ((amid c allowed indent outer ts).holding ks).plainScalar =
      .ok ((amid d ended indent outer (ts ++ [.scalar text true])).holding
        (ks ++ noted c allowed indent ts)) := by
  unfold plainScalar
  rw [noteCandidate_holding hks]
  change Except.ok { ((amid c allowed indent outer ts).holding
      (ks ++ noted c allowed indent ts)).emit (.scalar (Plain.read false (indent + 1) c).1 true) with
    cursor := (Plain.read false (indent + 1) c).2.1
    keyAllowed := (Plain.read false (indent + 1) c).2.2 } = _
  rw [h]
  simp [amid, holding, emit]

theorem nodePart_of_read {α : Type} (hks : allowed = true → ks = []) {a : α} {d : Cursor}
    {read : Cursor → Except Failure (α × Cursor)} (t : α → Token) (h : read c = .ok (a, d)) :
    ((amid c allowed indent outer ts).holding ks).nodePart read t =
      .ok ((amid d false indent outer (ts ++ [t a])).holding
        (ks ++ noted c allowed indent ts)) := by
  unfold nodePart
  rw [noteCandidate_holding hks]
  change (read c >>= fun p => pure { ((amid c allowed indent outer ts).holding
      (ks ++ noted c allowed indent ts)).emit (t p.1) with
    cursor := p.2, keyAllowed := false } : Except Failure Lexer) = _
  rw [h]
  refine congrArg Except.ok ?_
  simp [amid, holding, emit]

theorem isIdle_noted (hidle : ∀ k ∈ ks, k.isRequired = false ∧ k.line ≤ c.line)
    (hright : indent < c.column) {k : Candidate} (hk : k ∈ ks ++ noted c allowed indent ts) :
    k.isRequired = false ∧ k.line ≤ c.line := by
  rcases List.mem_append.mp hk with hk | hk
  · exact hidle k hk
  · rw [mem_noted hk]
    exact ⟨decide_eq_false (by omega), Nat.le_refl _⟩

theorem stands_holding (indent : Int) (outer : List Int) (ts : List Token) {u : List Char}
    (hrest : c.rest = u) (hu : Begins u)
    (hks : ∀ k ∈ ks, k.isRequired = false ∧ k.line < c.line) :
    ((amid c true indent outer ts).holding ks).Stands u c.column true indent outer ts := by
  have hstands := stands_spaces (x := (amid c true indent outer ts).holding ks) rfl (n := 0)
    hrest hu hks
  simpa [amid, holding, Cursor.advance] using hstands

theorem stands_holding_line (allowed : Bool) (indent : Int) (outer : List Int) (ts : List Token)
    {n : Nat} {u : List Char} (hrest : c.rest = '\n' :: (List.replicate n ' ' ++ u)) (hu : Begins u)
    (hks : ∀ k ∈ ks, k.isRequired = false ∧ k.line ≤ c.line) :
    ((amid c allowed indent outer ts).holding ks).Stands u n true indent outer ts := by
  have hstands := stands_line (x := (amid c allowed indent outer ts).holding ks) rfl hks hrest hu
  simpa [amid, holding] using hstands

theorem next_ink_line {column n : Nat} {w u : List Char} {text : String} {isPlain : Bool}
    (ks : List Candidate) (allowed : Bool) (outer : List Int) (ts : List Token)
    (h : Inks column w text isPlain) (hks : allowed = true → ks = [])
    (hidle : ∀ k ∈ ks, k.isRequired = false ∧ k.line ≤ c.line)
    (hpos : 0 < column) (hcolumn : indent < column)
    (hc : c.rest = w ++ '\n' :: (List.replicate n ' ' ++ u)) (hu : Follows n u) (hn : n ≤ indent)
    (hright : indent < c.column) (hcol : c.column ≠ 0) :
    ∃ y, ((amid c allowed indent outer ts).holding ks).next = .ok y ∧
      y.tokens.back? = some (.scalar text isPlain) ∧ y.cursor.rest.length < c.rest.length ∧
      y.Stands u n true indent outer (ts ++ [.scalar text isPlain]) := by
  -- a plain scalar takes the break with it, one in quotes ends before that
  cases h with
  | @plain w s hwoven hstart =>
    obtain ⟨ch, more, hcons, hwhite, -⟩ := hwoven.exists_cons
    have hmark := Features.isMark_append (hstart ch more hcons)
      ('\n' :: (List.replicate n ' ' ++ u))
    have hread := hwoven.read_line hpos (by omega : indent + 1 ≤ column) hc hu.white hu.marker
      (by omega) (by omega)
    obtain ⟨hrest, hcolumn', hlater⟩ := Cursor.advance_line hc
    refine ⟨_, (next_plain (by rw [hc, hcons]; rfl) hcol hwhite hmark).trans
      (plainScalar_of_read hks hread), by simp [amid, holding], ?_, ?_⟩
    · change (c.advance (w.length + (n + 1))).rest.length < _
      rw [hrest, hc]
      simp
      omega
    · have hstale : ∀ k ∈ ks ++ noted c allowed indent ts, k.isRequired = false ∧
          k.line < (c.advance (w.length + (n + 1))).line := fun k hk => by
        obtain ⟨hrequired, hbefore⟩ := isIdle_noted hidle hright hk
        exact ⟨hrequired, Nat.lt_of_le_of_lt hbefore hlater⟩
      have hstands := stands_holding indent outer (ts ++ [.scalar (String.ofList s) true]) hrest
        hu.toBegins hstale
      rwa [hcolumn'] at hstands
  | @quoted double w s hquotes =>
    have hrest : c.rest = quoteMark double :: (w ++ quoteMark double ::
        ('\n' :: (List.replicate n ' ' ++ u))) := by
      rw [hc]
      simp
    have hread := hquotes.read (fun _ => rfl) hrest
    have hafter : (c.advance (w.length + 2)).rest = '\n' :: (List.replicate n ' ' ++ u) := by
      rw [Cursor.rest_advance, hrest]
      simp
    refine ⟨_, (next_quoted hrest).trans (nodePart_of_read hks (.scalar · false) hread),
      by simp [amid, holding], ?_, ?_⟩
    · change (c.advance (w.length + 2)).rest.length < _
      rw [hafter, hrest]
      simp
      omega
    · refine stands_holding_line false indent outer _ hafter hu.toBegins fun k hk => ?_
      obtain ⟨hrequired, hbefore⟩ := isIdle_noted hidle hright hk
      exact ⟨hrequired, Nat.le_trans hbefore (Cursor.line_le_advance _ c)⟩

theorem next_ink_key {column : Nat} {w v : List Char} {text : String} {isPlain : Bool}
    (ks : List Candidate) (allowed : Bool) (outer : List Int) (ts : List Token)
    (h : Inks column w text isPlain)
    (hks : allowed = true → ks = []) (hpos : 0 < column) (hcolumn : indent < column)
    (hc : c.rest = w ++ ':' :: v) (hv : startsBlank v = true) (hright : indent ≤ c.column)
    (hcol : c.column ≠ 0) :
    ((amid c allowed indent outer ts).holding ks).next =
      .ok ((amid (c.advance w.length) false indent outer (ts ++ [.scalar text isPlain])).holding
        (ks ++ noted c allowed indent ts)) := by
  cases h with
  | @plain w s hwoven hstart =>
    obtain ⟨ch, more, hcons, hwhite, -⟩ := hwoven.exists_cons
    have hmark := Features.isMark_append (hstart ch more hcons) (':' :: v)
    have hread := hwoven.read_key hpos (by omega : indent + 1 ≤ column) hc hv (by omega)
    exact (next_plain (by rw [hc, hcons]; rfl) hcol hwhite hmark).trans
      (plainScalar_of_read hks hread)
  | @quoted double w s hquotes =>
    have hrest : c.rest = quoteMark double :: (w ++ quoteMark double :: (':' :: v)) := by
      rw [hc]
      simp
    have hread := hquotes.read (fun _ => rfl) hrest
    rw [(next_quoted hrest).trans (nodePart_of_read hks (.scalar · false) hread)]
    simp

end Scalars

/-! ### Keys on one line -/

theorem settle_of_current {x : Lexer} {n : Nat} {v : List Char}
    (hrest : x.cursor.rest = List.replicate n ' ' ++ v) (hv : Begins v)
    (hcurrent : ∀ k ∈ x.candidates, k.line = x.cursor.line ∧ x.cursor.index + n ≤ k.index + 1024) :
    x.settle = .ok { x with cursor := x.cursor.advance n } := by
  obtain ⟨hindex, hline, -⟩ := Cursor.advance_of_not_isBreak hrest fun ch hch => by
    rw [List.eq_of_mem_replicate hch]
    rfl
  rw [List.length_replicate] at hindex hline
  have hdrop (c : Cursor) (hc : c.line = x.cursor.line) (hindex : c.index ≤ x.cursor.index + n) :
      { x with cursor := c }.dropStale = .ok { x with cursor := c } := by
    have hheld : ∀ k ∈ x.candidates, { x with cursor := c }.isCurrent k = true := fun k hk => by
      obtain ⟨hsame, hreach⟩ := hcurrent k hk
      simp only [isCurrent, Bool.and_eq_true, beq_iff_eq, decide_eq_true_eq]
      omega
    have hnone : ¬ (x.candidates.any fun k =>
        !{ x with cursor := c }.isCurrent k && k.isRequired) = true := by
      simp only [List.any_eq_true, not_exists, not_and]
      intro k hk
      simp [hheld k hk]
    have hkept : x.candidates.filter { x with cursor := c }.isCurrent = x.candidates :=
      List.filter_eq_self.mpr hheld
    rw [dropStale, if_neg hnone, hkept]
  have hfirst : x.dropStale = .ok x := hdrop x.cursor rfl (Nat.le_add_right _ _)
  unfold settle
  rw [hfirst]
  change x.skipBlank.dropStale = _
  rw [skipBlank_spaces hrest hv]
  exact hdrop _ hline (Nat.le_of_eq hindex)

theorem exists_settle_of_hasIdle {x : Lexer} {n : Nat} {v : List Char}
    (hrest : x.cursor.rest = List.replicate n ' ' ++ v) (hv : Begins v) (hidle : x.HasIdle) :
    ∃ ks, (∀ k ∈ ks, k ∈ x.candidates) ∧
      x.settle = .ok { x with cursor := x.cursor.advance n, candidates := ks } := by
  obtain ⟨-, hline, -⟩ := Cursor.advance_of_not_isBreak hrest fun ch hch => by
    rw [List.eq_of_mem_replicate hch]
    rfl
  rw [List.length_replicate] at hline
  have hlater : HasIdle
      { x with cursor := x.cursor.advance n, candidates := x.candidates.filter x.isCurrent } :=
    fun k hk => by
      obtain ⟨hrequired, hbefore⟩ := hidle k (List.mem_filter.mp hk).1
      exact ⟨hrequired, hline.symm ▸ hbefore⟩
  unfold settle
  rw [dropStale_of_hasIdle hidle]
  change ∃ ks, _ ∧ (skipBlank { x with candidates := x.candidates.filter x.isCurrent }).dropStale = _
  rw [skipBlank_spaces (x := { x with candidates := x.candidates.filter x.isCurrent }) hrest hv,
    dropStale_of_hasIdle hlater]
  exact ⟨_, fun k hk => (List.mem_filter.mp (List.mem_filter.mp hk).1).1, rfl⟩

theorem begins_colon (v : List Char) : Begins (':' :: v) :=
  ⟨rfl, by simp, by simp⟩

theorem next_value (c : Cursor) {d : Cursor} {v : List Char} (hd : d.rest = ':' :: v)
    (hv : startsBlank v = true) (hcol : d.column ≠ 0) {indent : Int} (outer : List Int)
    (ts : List Token) (hindent : indent ≤ c.column) (us : List Token) :
    ((amid d false indent outer (ts ++ us)).holding (noted c true indent ts)).next =
      .ok (amid d.next false c.column (around indent c.column outer)
        (ts ++ begun indent c.column .blockMapping ++ .key :: (us ++ [.value]))) := by
  have hnext : ((amid d false indent outer (ts ++ us)).holding (noted c true indent ts)).next =
      ((amid d false indent outer (ts ++ us)).holding (noted c true indent ts)).value := by
    simp [next, amid, holding, hd, hv, hcol]
  rw [hnext]
  unfold value opens around begun
  by_cases hlt : indent < c.column
  · simp [noted, amid, holding, hlt, splice, take, emit, Cursor.advance]
  · have heq : indent = c.column := by omega
    simp [noted, amid, holding, heq, splice, take, emit, Cursor.advance]

theorem turn_value {c d : Cursor} {v : List Char} (hd : d.rest = ':' :: v)
    (hv : startsBlank v = true) (hcol : d.column ≠ 0) {indent : Int} (outer : List Int)
    (ts : List Token) (hright : c.column ≤ d.column) (hindent : indent ≤ c.column)
    (hline : d.line = c.line) (hindex : d.index ≤ c.index + 1024) (us : List Token) :
    Turn ((amid d false indent outer (ts ++ us)).holding (noted c true indent ts))
      (amid d.next false c.column (around indent c.column outer)
        (ts ++ begun indent c.column .blockMapping ++ .key :: (us ++ [.value]))) := by
  have hback : (Token.key :: (us ++ [.value])).getLast? ≠ some .streamEnd := by
    rw [← List.cons_append, List.getLast?_concat]
    simp
  refine ⟨_, settle_of_current (n := 0) hd (begins_colon v) fun k hk => ?_, ?_,
    by simpa [amid] using hback, ?_⟩
  · have hk : k ∈ noted c true indent ts := hk
    rw [mem_noted hk]
    exact ⟨hline.symm, hindex⟩
  · rw [close_of_le]
    · exact next_value c hd hv hcol outer ts hindent us
    · change indent ≤ d.column
      omega
  · change d.next.rest.length < d.rest.length
    rw [Cursor.rest_next_of_cons hd, hd]
    exact Nat.lt_succ_self _

/-! ### Collections without items -/

section Hollow
variable {c : Cursor} {allowed : Bool} {indent : Int} {outer : List Int} {ts : List Token}

def within (c d : Cursor) (allowed : Bool) (indent : Int) (outer : List Int) (ts : List Token)
    (t : Token) : Lexer :=
  { amid d true indent outer (ts ++ [t]) with flow := 1, candidates := noted c allowed indent ts }

theorem openFlow_amid (t : Token) :
    (amid c allowed indent outer ts).openFlow t =
      .ok (within c c.next allowed indent outer ts t) := by
  have hnote : (amid c allowed indent outer ts).noteCandidate =
      .ok ((amid c allowed indent outer ts).holding (noted c allowed indent ts)) :=
    noteCandidate_holding fun _ => (rfl : ([] : List Candidate) = [])
  unfold openFlow
  rw [hnote]
  change Except.ok _ = _
  simp [amid, holding, within, take, emit, Cursor.advance]

theorem closeFlow_within {d : Cursor} (t s : Token) :
    (within c d allowed indent outer ts t).closeFlow s =
      .ok { amid d.next false indent outer (ts ++ [t, s]) with
        candidates := noted c allowed indent ts } := by
  have hdrop : (within c d allowed indent outer ts t).dropCandidate =
      .ok (within c d allowed indent outer ts t) := by
    refine dropCandidate_of_level fun k hk => ?_
    have hk : k ∈ noted c allowed indent ts := hk
    rw [mem_noted hk]
    exact Nat.zero_ne_one
  unfold closeFlow
  rw [hdrop]
  change Except.ok _ = _
  simp [within, amid, take, emit, Cursor.advance]

end Hollow

namespace Stands
variable {x : Lexer} {column : Nat} {indent : Int} {outer : List Int} {ts : List Token}
  {v : List Char}

theorem simpleKey {fold : Nat} {w : List Char} {text : String} {isPlain : Bool}
    (h : x.Stands (w ++ ':' :: v) column true indent outer ts) (hindent : indent ≤ column)
    (hink : Inks fold w text isPlain) (hfold : column < fold) (hcolumn : 0 < column)
    (hline : ∀ ch ∈ w, isBreak ch = false) (hlength : w.length ≤ 1024) (hv : startsBlank v = true) :
    ∃ d : Cursor, d.rest = v ∧ column < d.column ∧
      Turns x (amid d false column (around indent column outer)
        (ts ++ begun indent column .blockMapping ++ [.key, .scalar text isPlain, .value])) := by
  obtain ⟨c, hrest, hcol, hturn⟩ := h.exists_place hindent
  obtain ⟨hindex, hsame, hright⟩ := Cursor.advance_of_not_isBreak hrest hline
  have hcolon := Cursor.rest_advance_of_append hrest
  have hafter := Cursor.next_of_not_isBreak hcolon rfl
  have hscalar := next_ink_key [] true outer ts hink (fun _ => rfl) (by omega) (by omega)
    hrest hv (by omega : indent ≤ c.column) (by omega)
  have hshorter : (c.advance w.length).rest.length < (w ++ ':' :: v).length := by
    have hne := List.length_pos_iff.mpr hink.ne_nil
    rw [hcolon, List.length_append]
    omega
  have hfirst := hturn _ hscalar (by simp [amid, holding]) hshorter
  refine ⟨(c.advance w.length).next, Cursor.rest_next_of_cons hcolon, ?_, ?_⟩
  · rw [hafter.2.2.2 (by decide)]
    omega
  · rw [← hcol]
    exact (Relation.ReflTransGen.single hfirst).tail (turn_value hcolon hv (by omega) outer ts hright
      (by omega) hsame (by omega) [.scalar text isPlain])

theorem indicator {ch : Char} {inner : Int} {around : List Int} {us : List Token}
    (h : x.Stands (ch :: ' ' :: v) column true indent outer ts) (hindent : indent ≤ column)
    (hch : isBreak ch = false ∧ ch ≠ '\ufeff') (hlast : us.getLast? ≠ some .streamEnd)
    (hnext : ∀ c : Cursor, c.rest = ch :: ' ' :: v → c.column = column →
      (amid c true indent outer ts).next = .ok (amid c.next true inner around us)) :
    ∃ d : Cursor, d.rest = ' ' :: v ∧ d.column = column + 1 ∧
      Turns x (amid d true inner around us) := by
  obtain ⟨c, hrest, hcol, hturn⟩ := h.exists_place hindent
  obtain ⟨-, -, -, hright⟩ := Cursor.next_of_not_isBreak hrest hch.1
  have hafter := Cursor.rest_next_of_cons hrest
  refine ⟨c.next, hafter, ?_, .single (hturn _ (hnext c hrest hcol) ?_ ?_)⟩
  · rw [hright hch.2, hcol]
  · simpa [amid] using hlast
  · change c.next.rest.length < _
    rw [hafter]
    exact Nat.lt_succ_self _

theorem dash (h : x.Stands ('-' :: ' ' :: v) column true indent outer ts)
    (hindent : indent ≤ column) :
    ∃ d : Cursor, d.rest = ' ' :: v ∧ d.column = column + 1 ∧
      Turns x (amid d true column (around indent column outer)
        (ts ++ begun indent column .blockSequence ++ [.blockEntry])) :=
  h.indicator hindent (by decide) (by simp) fun c hrest hcol => by
    rw [next_dash outer ts hrest (by omega : indent ≤ c.column), hcol]

theorem question (h : x.Stands ('?' :: ' ' :: v) column true indent outer ts)
    (hindent : indent ≤ column) :
    ∃ d : Cursor, d.rest = ' ' :: v ∧ d.column = column + 1 ∧
      Turns x (amid d true column (around indent column outer)
        (ts ++ begun indent column .blockMapping ++ [.key])) :=
  h.indicator hindent (by decide) (by simp) fun c hrest hcol => by
    rw [next_question outer ts hrest (by omega : indent ≤ c.column), hcol]

theorem colon (h : x.Stands (':' :: ' ' :: v) column true column outer ts) :
    ∃ d : Cursor, d.rest = ' ' :: v ∧ d.column = column + 1 ∧
      Turns x (amid d true column outer (ts ++ [.value])) :=
  h.indicator (Int.le_refl _) (by decide) (by simp) fun c hrest hcol => by
    rw [← hcol, next_colon outer ts hrest]

theorem scalar {fold n : Nat} {w u : List Char} {text : String} {isPlain allowed : Bool}
    (h : x.Stands (w ++ '\n' :: (List.replicate n ' ' ++ u)) column allowed indent outer ts)
    (hindent : indent < column) (hink : Inks fold w text isPlain) (hfold : indent < fold)
    (hpos : 0 < fold) (hcolumn : 0 < column) (hu : Follows n u) (hn : n ≤ indent) :
    ∃ y, Turns x y ∧ y.Stands u n true indent outer (ts ++ [.scalar text isPlain]) := by
  obtain ⟨c, hrest, hcol, hturn⟩ := h.exists_place (Int.le_of_lt hindent)
  obtain ⟨y, hy, hback, hlength, hstands⟩ := next_ink_line [] allowed outer ts hink
    (fun _ => rfl) (List.forall_mem_nil _) hpos hfold hrest hu hn (by omega) (by omega)
  exact ⟨y, .single (hturn y hy (by simp [hback]) (hrest ▸ hlength)), hstands⟩

theorem hollow {n : Nat} {u : List Char} {allowed : Bool} {left right : Char} {t s : Token}
    (h : x.Stands (left :: right :: '\n' :: (List.replicate n ' ' ++ u)) column allowed indent outer
      ts) (hindent : indent < column) (hu : Begins u) (hleft : isBreak left = false)
    (hbegins : ∀ v, Begins (right :: v)) (ht : t ≠ .streamEnd)
    (hs : s ≠ .streamEnd)
    (hopen : ∀ c : Cursor, c.rest.head? = some left →
      (amid c allowed indent outer ts).next = (amid c allowed indent outer ts).openFlow t)
    (hclose : ∀ c d : Cursor, d.rest.head? = some right →
      (within c d allowed indent outer ts t).next =
        (within c d allowed indent outer ts t).closeFlow s) :
    ∃ y, Turns x y ∧ y.Stands u n true indent outer (ts ++ [t, s]) := by
  obtain ⟨c, hrest, hcol, hturn⟩ := h.exists_place (Int.le_of_lt hindent)
  have hafter := Cursor.next_of_not_isBreak hrest hleft
  have hrest' := Cursor.rest_next_of_cons hrest
  have hrest'' := Cursor.rest_next_of_cons hrest'
  have hfirst := hturn _ ((hopen c (by rw [hrest]; rfl)).trans (openFlow_amid t))
    (by simpa [within, amid] using ht) (by
      change c.next.rest.length < _
      rw [hrest']
      exact Nat.lt_succ_self _)
  have hsecond : Turn (within c c.next allowed indent outer ts t)
      { amid c.next.next false indent outer (ts ++ [t, s]) with
        candidates := noted c allowed indent ts } := by
    refine ⟨_, settle_of_current (n := 0) hrest' (hbegins _) fun k hk => ?_, ?_,
      by simpa [amid] using hs, ?_⟩
    · have hk : k ∈ noted c allowed indent ts := hk
      rw [mem_noted hk]
      refine ⟨hafter.2.1.symm, ?_⟩
      change c.next.index + 0 ≤ c.index + 1024
      omega
    · change ((within c c.next allowed indent outer ts t).close c.next.column).next = _
      rw [close_of_le]
      · rw [hclose c c.next (by rw [hrest']; rfl), closeFlow_within]
      · change indent ≤ c.next.column
        omega
    · change c.next.next.rest.length < c.next.rest.length
      rw [hrest'', hrest']
      exact Nat.lt_succ_self _
  refine ⟨_, (Relation.ReflTransGen.single hfirst).tail hsecond, ?_⟩
  -- the key that might have begun with the bracket is stale on the next line
  refine stands_holding_line false indent outer _ hrest'' hu fun k hk => ?_
  rw [mem_noted hk]
  refine ⟨decide_eq_false (by omega), ?_⟩
  change c.line ≤ c.next.next.line
  exact Nat.le_trans c.line_le_next c.next.line_le_next

theorem hollowSequence {n : Nat} {u : List Char} {allowed : Bool}
    (h : x.Stands ('[' :: ']' :: '\n' :: (List.replicate n ' ' ++ u)) column allowed indent
      outer ts)
    (hindent : indent < column) (hu : Begins u) :
    ∃ y, Turns x y ∧ y.Stands u n true indent outer
      (ts ++ [.flowSequence, .flowSequenceEnd]) := by
  refine h.hollow hindent hu rfl (fun v => ⟨rfl, by simp, by simp⟩) nofun nofun (fun c hc => ?_)
    fun c d hd => ?_
  · obtain ⟨v, hv⟩ := List.head?_eq_some_iff.mp hc
    simp [next, amid, hv, Quoted.atMarker_of_not]
  · obtain ⟨v, hv⟩ := List.head?_eq_some_iff.mp hd
    simp [next, within, amid, hv, Quoted.atMarker_of_not]

theorem hollowMapping {n : Nat} {u : List Char} {allowed : Bool}
    (h : x.Stands ('\x7b' :: '\x7d' :: '\n' :: (List.replicate n ' ' ++ u)) column allowed indent
      outer ts) (hindent : indent < column) (hu : Begins u) :
    ∃ y, Turns x y ∧ y.Stands u n true indent outer (ts ++ [.flowMapping, .flowMappingEnd]) := by
  refine h.hollow hindent hu rfl (fun v => ⟨rfl, by simp, by simp⟩) nofun nofun (fun c hc => ?_)
    fun c d hd => ?_
  · obtain ⟨v, hv⟩ := List.head?_eq_some_iff.mp hc
    simp [next, amid, hv, Quoted.atMarker_of_not]
  · obtain ⟨v, hv⟩ := List.head?_eq_some_iff.mp hd
    simp [next, within, amid, hv, Quoted.atMarker_of_not]

theorem run_end {allowed : Bool} (h : x.Stands [] column allowed indent outer ts)
    (hindent : indent ≤ column) {us : List Token}
    (hclose : ∀ c, (amid c allowed indent outer ts).close (-1) = amid c allowed (-1) [] us)
    (fuel : Nat) : run (fuel + 1) x = ⟨us ++ [.streamEnd], none⟩ := by
  obtain ⟨c, s, hs, hc, hu, hcol, -, hplace⟩ := h
  have hnext : (amid c allowed indent outer ts).next =
      .ok (amid c allowed (-1) [] (us ++ [.streamEnd])) := by
    have hrest : (amid c allowed indent outer ts).cursor.rest = [] := hu
    unfold next
    simp only [hrest, hclose c, dropCandidate_amid]
    change Except.ok _ = _
    simp [amid, emit]
  rw [run_of_next hs (y := amid c allowed (-1) [] (us ++ [.streamEnd]))]
  · simp [amid]
  · rw [hc, hcol, hplace, close_of_le hindent, hnext]

end Stands

end Lexer

end FilterTree.Yaml
