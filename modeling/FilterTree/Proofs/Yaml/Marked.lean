import FilterTree.Proofs.Yaml.Lexed

/-! Names and tags before scalars, and the names that stand for things written before. -/

namespace FilterTree.Yaml

/-! ### Names -/

def isStop (ch : Char) : Bool :=
  ch = ' ' || ch = '\n' || ch = ':'

theorem readName_of_word {c : Cursor} {ch b : Char} {name v : List Char}
    (hc : c.rest = ch :: (name ++ b :: v)) (hne : name ≠ [])
    (hname : ∀ ch ∈ name, isWordChar ch = true) (hb : isStop b = true) :
    readName c = .ok (String.ofList name, c.advance (name.length + 1)) := by
  have hstop : isWordChar b = false ∧
      (startsBlank (b :: v) || startsWith ("?:,]\x7d%@`".toList.contains ·) (b :: v)) = true := by
    simp only [isStop, Bool.or_eq_true, decide_eq_true_eq] at hb
    rcases hb with (rfl | rfl) | rfl
    · exact ⟨rfl, rfl⟩
    · exact ⟨rfl, rfl⟩
    · refine ⟨rfl, ?_⟩
      simp [startsWith]
  have hspan : c.next.span isWordChar = (name, c.next.advance name.length) :=
    Cursor.span_of_append (Cursor.rest_next_of_cons hc) hname hstop.1
  have hafter : (c.next.advance name.length).rest = b :: v :=
    Cursor.rest_advance_of_append (Cursor.rest_next_of_cons hc)
  unfold readName
  rw [hspan]
  dsimp only
  rw [hafter, if_neg (by simpa using hne), if_pos hstop.2]
  rfl

/-! ### Tags -/

theorem uriChars_of_append {cs v : List Char} (hcs : ∀ ch ∈ cs, isUriChar ch = true)
    (hv : v.head? = some ' ') : ∀ {fuel : Nat} {c : Cursor}, c.rest = cs ++ v → cs.length < fuel →
    uriChars fuel c = .ok (cs, c.advance cs.length) := by
  induction cs with
  | nil =>
    intro fuel c hc hfuel
    obtain ⟨fuel, rfl⟩ := Nat.exists_eq_add_one_of_ne_zero (Nat.ne_of_gt hfuel)
    obtain ⟨more, rfl⟩ : ∃ more, v = ' ' :: more := by
      cases v with
      | nil => cases hv
      | cons d more => exact ⟨more, by rw [Option.some.inj hv]⟩
    have hspace : ¬ isUriChar ' ' = true := by simp [isUriChar]
    rw [uriChars]
    simp only [hc, List.nil_append]
    exact if_neg hspace
  | cons ch cs ih =>
    intro fuel c hc hfuel
    obtain ⟨fuel, rfl⟩ := Nat.exists_eq_add_one_of_ne_zero (Nat.ne_zero_of_lt hfuel)
    obtain ⟨hch, hcs⟩ := List.forall_mem_cons.mp hcs
    have hpercent : ch ≠ '%' := by
      rintro rfl
      simp [isUriChar] at hch
    have hmore := ih hcs (Cursor.rest_next_of_cons hc) (Nat.lt_of_succ_lt_succ hfuel)
    rw [uriChars]
    simp only [hc, List.cons_append]
    rw [if_pos hch, hmore]
    rfl

theorem shorthand_binary : Tags.shorthand Tags.binary = "!!binary" := by
  decide

def binaryTag : Tag :=
  ⟨some "!!", "binary"⟩

theorem readHandle_of_marks {c : Cursor} {v : List Char} (hc : c.rest = '!' :: '!' :: v) :
    readHandle c = .ok ("!!", c.advance 2) := by
  unfold readHandle
  rw [hc]
  simp [isWordChar]

theorem readUri_of_append {c : Cursor} {cs v : List Char} (hne : cs ≠ [])
    (hcs : ∀ ch ∈ cs, isUriChar ch = true) (hc : c.rest = cs ++ ' ' :: v) :
    readUri c = .ok (String.ofList cs, c.advance cs.length) := by
  have hlength : c.rest.length = cs.length + (' ' :: v).length := by rw [hc, List.length_append]
  have hafter : (c.advance cs.length).rest = ' ' :: v := Cursor.rest_advance_of_append hc
  have hsome : 0 < cs.length := List.length_pos_iff.mpr hne
  unfold readUri
  dsimp only
  rw [uriChars_of_append hcs rfl hc (by omega)]
  refine if_neg ?_
  dsimp only
  rw [hafter]
  omega

theorem read_binaryTag {c : Cursor} {v : List Char}
    (hc : c.rest = ['!', '!', 'b', 'i', 'n', 'a', 'r', 'y'] ++ ' ' :: v) :
    Tag.read c = .ok (binaryTag, c.advance 8) := by
  have hhandle : Tag.hasHandle (c.rest.drop 1) = true := by
    rw [hc]
    simp [Tag.hasHandle, isBreak]
  have hname : readUri (c.advance 2) = .ok ("binary", (c.advance 2).advance 6) := by
    refine readUri_of_append (v := v) (by decide : "binary".toList ≠ []) ?_ ?_
    · exact List.all_eq_true.mp rfl
    · rw [Cursor.rest_advance, hc]
      rfl
  have hafter : (c.advance 8).rest = ' ' :: v := Cursor.rest_advance_of_append hc
  unfold Tag.read
  dsimp only
  rw [if_neg (by rw [hc]; simp), if_neg (by rw [hc]; exact Bool.false_ne_true), if_pos hhandle,
    readHandle_of_marks (v := "binary".toList ++ ' ' :: v) (by rw [hc]; rfl)]
  dsimp only [bind, Except.bind]
  rw [hname]
  dsimp only [pure, Except.pure]
  rw [Cursor.advance_add, hafter]
  rfl

/-! ### Marks -/

inductive Mark where
  | anchor (name : List Char)
  | binary
  | alias (name : List Char)

namespace Mark

def ink : Mark → List Char
  | .anchor name => '&' :: name
  | .binary => ['!', '!', 'b', 'i', 'n', 'a', 'r', 'y']
  | .alias name => '*' :: name

def token : Mark → Token
  | .anchor name => .anchor (String.ofList name)
  | .binary => .tag binaryTag
  | .alias name => .alias (String.ofList name)

def IsWord : Mark → Prop
  | .anchor name | .alias name => name ≠ [] ∧ ∀ ch ∈ name, isWordChar ch = true
  | .binary => True

def Stops : Mark → Char → Prop
  | .binary, b => b = ' '
  | _, b => isStop b = true

theorem stops_space (m : Mark) : m.Stops ' ' := by
  cases m <;> rfl

theorem isAllowed_of_isWordChar {ch : Char} (h : isWordChar ch = true) :
    isAllowed ch = true ∧ isBreak ch = false := by
  have hrange : 0x2d ≤ ch.toNat ∧ ch.toNat ≤ 0x7a := by
    have hupper (h : ch.isUpper = true) : 0x41 ≤ ch.toNat ∧ ch.toNat ≤ 0x5a := of_decide_eq_true h
    have hlower (h : ch.isLower = true) : 0x61 ≤ ch.toNat ∧ ch.toNat ≤ 0x7a :=
      (Bool.and_eq_true_iff.mp h).imp of_decide_eq_true of_decide_eq_true
    have hdigit (h : ch.isDigit = true) : 0x30 ≤ ch.toNat ∧ ch.toNat ≤ 0x39 :=
      Char.isDigit_iff_toNat.mp h
    simp only [isWordChar, Bool.or_eq_true, decide_eq_true_eq] at h
    rcases h with (h | rfl) | rfl
    · rcases Bool.or_eq_true_iff.mp h with h | h
      · rcases Bool.or_eq_true_iff.mp h with h | h
        · have := hupper h
          omega
        · have := hlower h
          omega
      · have := hdigit h
        omega
    · decide
    · decide
  refine ⟨?_, ?_⟩
  · simp only [isAllowed, Bool.or_eq_true, Bool.and_eq_true, decide_eq_true_eq]
    omega
  · refine Bool.eq_false_iff.mpr fun hbreak => ?_
    rcases cases_of_isBreak hbreak with rfl | rfl | rfl | rfl | rfl <;> revert hrange <;> decide

variable {m : Mark}

theorem exists_ink (m : Mark) : ∃ ch more, m.ink = ch :: more ∧ (ch = '&' ∨ ch = '!' ∨ ch = '*') := by
  cases m with
  | anchor name => exact ⟨_, _, rfl, .inl rfl⟩
  | binary => exact ⟨_, _, rfl, .inr (.inl rfl)⟩
  | «alias» name => exact ⟨_, _, rfl, .inr (.inr rfl)⟩

theorem begins_ink (m : Mark) (v : List Char) : Lexer.Begins (m.ink ++ v) := by
  obtain ⟨ch, more, hink, hch⟩ := m.exists_ink
  rw [hink]
  rcases hch with rfl | rfl | rfl <;> exact ⟨rfl, by simp, by simp⟩

theorem isAllowed_ink (h : m.IsWord) : ∀ ch ∈ m.ink, isAllowed ch = true ∧ isBreak ch = false := by
  have hword {first : Char} {name : List Char}
      (hfirst : isAllowed first = true ∧ isBreak first = false)
      (hname : ∀ ch ∈ name, isWordChar ch = true) :
      ∀ ch ∈ first :: name, isAllowed ch = true ∧ isBreak ch = false :=
    List.forall_mem_cons.mpr ⟨hfirst, fun ch hch => isAllowed_of_isWordChar (hname ch hch)⟩
  cases m with
  | anchor name => exact hword ⟨rfl, rfl⟩ h.2
  | binary => exact List.forall_mem_cons.mpr ⟨⟨rfl, rfl⟩, hword ⟨rfl, rfl⟩ (List.all_eq_true.mp rfl)⟩
  | «alias» name => exact hword ⟨rfl, rfl⟩ h.2

end Mark

namespace Lexer
variable {c : Cursor} {allowed : Bool} {indent : Int} {outer : List Int} {ts : List Token}
  {ks : List Candidate}

theorem next_mark (indent : Int) (outer : List Int) (ts : List Token) {m : Mark} (hm : m.IsWord)
    {b : Char} {v : List Char}
    (hc : c.rest = m.ink ++ b :: v) (hb : m.Stops b) (hcol : c.column ≠ 0)
    (hks : allowed = true → ks = []) :
    ((amid c allowed indent outer ts).holding ks).next =
      .ok ((amid (c.advance m.ink.length) false indent outer (ts ++ [m.token])).holding
        (ks ++ noted c allowed indent ts)) := by
  cases m with
  | anchor name =>
    have hread := readName_of_word (b := b) (v := v) hc hm.1 hm.2 hb
    refine Eq.trans ?_ (nodePart_of_read hks .anchor hread)
    simp [next, amid, holding, hc, Mark.ink, hcol]
  | «alias» name =>
    have hread := readName_of_word (b := b) (v := v) hc hm.1 hm.2 hb
    refine Eq.trans ?_ (nodePart_of_read hks .alias hread)
    simp [next, amid, holding, hc, Mark.ink, hcol]
  | binary =>
    obtain rfl : b = ' ' := hb
    have hread := read_binaryTag hc
    refine Eq.trans ?_ (nodePart_of_read hks .tag hread)
    simp [next, amid, holding, hc, Mark.ink, hcol]

theorem turn_mark {x : Lexer} {column : Nat} {m : Mark} (hm : m.IsWord) {b : Char} {v : List Char}
    (h : x.Stands (m.ink ++ b :: v) column allowed indent outer ts) (hindent : indent ≤ column)
    (hcolumn : 0 < column) (hb : m.Stops b) : ∃ c d : Cursor, c.column = column ∧ d.rest = b :: v ∧
      d.index = c.index + m.ink.length ∧ d.line = c.line ∧ column ≤ d.column ∧
      Turn x ((amid d false indent outer (ts ++ [m.token])).holding (noted c allowed indent ts)) := by
  obtain ⟨c, hrest, hcol, hturn⟩ := h.exists_place hindent
  obtain ⟨hindex, hline, hright⟩ := Cursor.advance_of_not_isBreak hrest fun ch hch =>
    (Mark.isAllowed_ink hm ch hch).2
  have hafter := Cursor.rest_advance_of_append hrest
  have hnext := next_mark indent outer ts hm hrest hb (by omega)
    (fun _ => rfl : allowed = true → [] = [])
  refine ⟨c, c.advance m.ink.length, hcol, hafter, hindex, hline, by omega,
    hturn _ hnext ?_ ?_⟩
  · cases m <;> simp [amid, holding, Mark.token]
  · obtain ⟨ch, more, hink, -⟩ := m.exists_ink
    change (c.advance m.ink.length).rest.length < _
    rw [hafter, hink]
    simp only [List.length_append, List.length_cons]
    omega

namespace Stands
variable {x : Lexer} {column : Nat} {m : Mark} {n : Nat} {u v : List Char}

theorem «alias» (h : x.Stands (m.ink ++ '\n' :: (List.replicate n ' ' ++ u)) column allowed indent
      outer ts) (hm : m.IsWord) (hb : m.Stops '\n') (hindent : indent < column) (hcolumn : 0 < column)
    (hu : Follows n u) :
    ∃ y, Turns x y ∧ y.Stands u n true indent outer (ts ++ [m.token]) := by
  obtain ⟨c, d, hcol, hrest, -, hline, -, hturn⟩ :=
    turn_mark hm h (Int.le_of_lt hindent) hcolumn hb
  refine ⟨_, .single hturn, ?_⟩
  refine stands_holding_line false indent outer _ hrest hu.toBegins fun k hk => ?_
  rw [mem_noted hk]
  exact ⟨decide_eq_false (by omega), Nat.le_of_eq hline.symm⟩

theorem exists_marked (h : x.Stands (m.ink ++ ' ' :: v) column allowed indent outer ts)
    (hm : m.IsWord) (hindent : indent < column) (hcolumn : 0 < column) (hv : Begins v) :
    ∃ (d : Cursor) (ks : List Candidate), d.rest = v ∧ column < d.column ∧
      (∀ k ∈ ks, k.isRequired = false ∧ k.line ≤ d.line) ∧
      ∀ y, ((amid d false indent outer (ts ++ [m.token])).holding ks).next = .ok y →
        y.tokens.back? ≠ some .streamEnd → y.cursor.rest.length ≤ v.length → Turns x y := by
  obtain ⟨c, d, hcol, hrest, -, hline, hright, hturn⟩ :=
    turn_mark hm h (Int.le_of_lt hindent) hcolumn m.stops_space
  have hspace := Cursor.next_of_not_isBreak hrest rfl
  have hidle : HasIdle ((amid d false indent outer (ts ++ [m.token])).holding
      (noted c allowed indent ts)) := fun k hk => by
    have hk : k ∈ noted c allowed indent ts := hk
    rw [mem_noted hk]
    exact ⟨decide_eq_false (by omega), Nat.le_of_eq hline.symm⟩
  obtain ⟨ks, hks, hsettle⟩ := exists_settle_of_hasIdle (n := 1) hrest hv hidle
  refine ⟨d.next, ks, Cursor.rest_next_of_cons hrest, ?_, fun k hk => ?_, fun y hy hback hlength =>
    (Relation.ReflTransGen.single hturn).tail ⟨_, hsettle, ?_, hback, ?_⟩⟩
  · rw [hspace.2.2.2 (by decide)]
    omega
  · rw [hspace.2.1]
    exact hidle k (hks k hk)
  · rw [close_of_le]
    · exact hy
    · change indent ≤ d.next.column
      omega
  · change y.cursor.rest.length < d.rest.length
    rw [hrest]
    exact Nat.lt_succ_of_le hlength

theorem marked {fold : Nat} {w : List Char} {text : String} {isPlain : Bool}
    (h : x.Stands (m.ink ++ ' ' :: (w ++ '\n' :: (List.replicate n ' ' ++ u))) column allowed indent
      outer ts) (hm : m.IsWord) (hindent : indent < column) (hink : Inks fold w text isPlain)
    (hfold : indent < fold) (hpos : 0 < fold) (hcolumn : 0 < column) (hu : Follows n u)
    (hn : n ≤ indent) :
    ∃ y, Turns x y ∧ y.Stands u n true indent outer (ts ++ [m.token, .scalar text isPlain]) := by
  obtain ⟨d, ks, hrest, hright, hidle, hturns⟩ :=
    h.exists_marked hm hindent hcolumn (begins_append hink _)
  obtain ⟨y, hy, hback, hlength, hstands⟩ := next_ink_line ks false outer (ts ++ [m.token]) hink nofun
    hidle hpos hfold hrest hu hn (by omega) (by omega)
  refine ⟨y, hturns y hy (by simp [hback]) (Nat.le_of_lt (hrest ▸ hlength)), ?_⟩
  simpa using hstands

theorem aliasKey (h : x.Stands (m.ink ++ ':' :: v) column true indent outer ts) (hm : m.IsWord)
    (hb : m.Stops ':') (hindent : indent ≤ column) (hcolumn : 0 < column)
    (hlength : m.ink.length ≤ 1024) (hv : startsBlank v = true) :
    ∃ d : Cursor, d.rest = v ∧ column < d.column ∧
      Turns x (amid d false column (around indent column outer)
        (ts ++ begun indent column .blockMapping ++ .key :: ([m.token] ++ [.value]))) := by
  obtain ⟨c, d, rfl, hrest, hindex, hline, hright, hturn⟩ := turn_mark hm h hindent hcolumn hb
  have hafter := Cursor.next_of_not_isBreak hrest rfl
  refine ⟨d.next, Cursor.rest_next_of_cons hrest, ?_, (Relation.ReflTransGen.single hturn).tail
    (turn_value hrest hv (by omega) outer ts hright hindent hline (by omega) [m.token])⟩
  rw [hafter.2.2.2 (by decide)]
  omega

theorem markedKey {fold : Nat} {w : List Char} {text : String} {isPlain : Bool}
    (h : x.Stands (m.ink ++ ' ' :: (w ++ ':' :: v)) column true indent outer ts) (hm : m.IsWord)
    (hindent : indent ≤ column) (hink : Inks fold w text isPlain) (hfold : column < fold)
    (hcolumn : 0 < column) (hbreak : ∀ ch ∈ w, isBreak ch = false)
    (hlength : m.ink.length + 1 + w.length ≤ 1024) (hv : startsBlank v = true) :
    ∃ d : Cursor, d.rest = v ∧ column < d.column ∧
      Turns x (amid d false column (around indent column outer)
        (ts ++ begun indent column .blockMapping ++
          .key :: ([m.token, .scalar text isPlain] ++ [.value]))) := by
  obtain ⟨c, d, rfl, hrest, hindex, hline, hright, hturn⟩ :=
    turn_mark hm h hindent hcolumn m.stops_space
  have hspace := Cursor.next_of_not_isBreak hrest rfl
  have hnext := Cursor.rest_next_of_cons hrest
  obtain ⟨hindex', hline', hright'⟩ := Cursor.advance_of_not_isBreak hnext hbreak
  have hcolon := Cursor.rest_advance_of_append hnext
  have hafter := Cursor.next_of_not_isBreak hcolon rfl
  have hsettle := settle_of_current (n := 1) (x := (amid d false indent outer
    (ts ++ [m.token])).holding (noted c true indent ts)) hrest (begins_append hink _) fun k hk => by
      have hk : k ∈ noted c true indent ts := hk
      rw [mem_noted hk]
      refine ⟨hline.symm, ?_⟩
      change d.index + 1 ≤ c.index + 1024
      omega
  have hscalar := next_ink_key (noted c true indent ts) false outer (ts ++ [m.token]) hink nofun
    (by omega) (by omega) hnext hv (by omega : indent ≤ d.next.column) (by omega)
  have hnone : noted d.next false indent (ts ++ [m.token]) = [] := rfl
  rw [hnone, List.append_nil, List.append_assoc] at hscalar
  have hsecond : Turn ((amid d false indent outer (ts ++ [m.token])).holding (noted c true indent ts))
      ((amid (d.next.advance w.length) false indent outer
        (ts ++ [m.token, .scalar text isPlain])).holding (noted c true indent ts)) := by
    refine ⟨_, hsettle, ?_, by simp [amid, holding], ?_⟩
    · rw [close_of_le]
      · exact hscalar
      · change indent ≤ d.next.column
        omega
    · change (d.next.advance w.length).rest.length < d.rest.length
      rw [hcolon, hrest]
      simp only [List.length_append, List.length_cons]
      omega
  refine ⟨(d.next.advance w.length).next, Cursor.rest_next_of_cons hcolon, ?_,
    ((Relation.ReflTransGen.single hturn).tail hsecond).tail (turn_value hcolon hv (by omega) outer ts
      (by omega) hindent (by omega) (by omega) [m.token, .scalar text isPlain])⟩
  rw [hafter.2.2.2 (by decide)]
  omega

end Stands

end Lexer

end FilterTree.Yaml
