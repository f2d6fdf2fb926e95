import FilterTree.Proofs.Yaml.Marked

/-! Texts in blocks, each line of them indented. -/

namespace FilterTree.Yaml

/-- Lines without blanks, each but the first one after its indentation, and the text that they make up
but for the line feed at its end. -/
inductive Blocked (indent : Nat) : List Char → List Char → Prop
  | last {line : List Char} (hne : line ≠ []) (hline : ∀ ch ∈ line, isWhite ch = false) :
      Blocked indent line line
  | line {line w s : List Char} (hne : line ≠ []) (hline : ∀ ch ∈ line, isWhite ch = false)
      (h : Blocked indent w s) :
      Blocked indent (line ++ '\n' :: (List.replicate indent ' ' ++ w)) (line ++ '\n' :: s)

namespace Blocked
variable {indent : Nat} {w s : List Char}

theorem exists_cons (h : Blocked indent w s) :
    ∃ ch more, w = ch :: more ∧ isWhite ch = false := by
  cases h with
  | last hne hline =>
    obtain ⟨ch, more, rfl⟩ := List.exists_cons_of_ne_nil hne
    exact ⟨ch, more, rfl, hline ch List.mem_cons_self⟩
  | line hne hline _ =>
    obtain ⟨ch, more, rfl⟩ := List.exists_cons_of_ne_nil hne
    exact ⟨ch, _, rfl, hline ch List.mem_cons_self⟩

theorem startsWith_isWhite (h : Blocked indent w s) (v : List Char) :
    startsWith isWhite (w ++ v) = false := by
  obtain ⟨ch, more, rfl, hch⟩ := h.exists_cons
  exact hch

end Blocked

namespace Block

theorem blankLines_spaces (indent : Nat) {n : Nat} {c : Cursor} {v : List Char} (hcolumn : c.column = 0)
    (hc : c.rest = List.replicate n ' ' ++ v) (hv : startsWith isWhite v = false) (fuel : Nat) :
    blankLines indent (fuel + 1) c = ([], c.advance (min indent n)) := by
  have hspaces : (c.rest.takeWhile (· = ' ')).length = n := by
    rw [hc, (beginsWithout_of_startsWith (startsWith_space hv)).takeWhile_append fun ch hch =>
      decide_eq_true (List.eq_of_mem_replicate hch), List.length_replicate]
  have hskip : skipIndent indent c = c.advance (min indent n) := by
    rw [skipIndent, hcolumn, hspaces, Nat.sub_zero]
  have hrest : (c.advance (min indent n)).rest = List.replicate (n - min indent n) ' ' ++ v := by
    rw [Cursor.rest_advance, hc, List.drop_append_of_le_length (by rw [List.length_replicate]; omega),
      List.drop_replicate]
  have hnone : (c.advance (min indent n)).takeBreak? = none := by
    refine Cursor.takeBreak?_eq_none ?_
    rw [hrest]
    cases n - min indent n with
    | zero => exact startsWith_isBreak hv
    | succ k => rfl
  rw [blankLines, hskip]
  simp only [hnone]

theorem lines_line {indent n : Nat} {c : Cursor} {line v : List Char} (hcolumn : c.column = indent)
    (hline : ∀ ch ∈ line, isWhite ch = false)
    (hc : c.rest = line ++ '\n' :: (List.replicate n ' ' ++ v)) (hv : startsWith isWhite v = false)
    (hn : n ≤ indent) (fuel : Nat) :
    lines false indent (fuel + 1) [] c =
      if n = indent ∧ v ≠ [] then
        let more := lines false indent fuel [] (c.advance (line.length + (n + 1)))
        (line ++ '\n' :: more.1, more.2)
      else (line, some '\n', [], c.advance (line.length + (n + 1))) := by
  have hspan : c.span (!isBreak ·) = (line, c.advance line.length) := by
    refine Cursor.span_of_append hc (fun ch hch => ?_) rfl
    rw [(Bool.or_eq_false_iff.mp (hline ch hch)).2]
    rfl
  have hend := Cursor.rest_advance_of_append hc
  have hbreak : (c.advance line.length).takeBreak? = some ('\n', (c.advance line.length).next) :=
    Cursor.takeBreak?_of_isFoldBreak (b := '\n') rfl hend
  have hblank := blankLines_spaces indent (Cursor.column_next_lineFeed hend)
    (Cursor.rest_next_of_cons hend) hv (c.advance line.length).next.rest.length
  have hplace : (c.advance line.length).next.advance n = c.advance (line.length + (n + 1)) :=
    Cursor.advance_add line.length (n + 1) c
  rw [Nat.min_eq_right hn, hplace] at hblank
  obtain ⟨hrest, hcolumn', -⟩ := Cursor.advance_line hc
  have hopen : ¬ (c.column ≠ indent || c.rest.isEmpty) = true := by
    simp [hcolumn, hc]
  rw [lines, if_neg hopen]
  simp only [hspan, hbreak, hblank, hrest, hcolumn']
  by_cases hmore : n = indent ∧ v ≠ []
  · rw [if_pos hmore, if_pos (by simpa using hmore)]
    simp
  · rw [if_neg hmore, if_neg (by simpa using hmore)]
    rfl

theorem lines_of_blocked {indent n : Nat} {u : List Char} (hn : n < indent)
    (hu : startsWith isWhite u = false) {w s : List Char} (h : Blocked indent w s) :
    ∀ {fuel : Nat} {c : Cursor}, c.column = indent →
      c.rest = w ++ '\n' :: (List.replicate n ' ' ++ u) → w.length < fuel →
      lines false indent fuel [] c = (s, some '\n', [], c.advance (w.length + (n + 1))) := by
  induction h with
  | @last line hne hline =>
    intro fuel c hcolumn hc hfuel
    obtain ⟨fuel, rfl⟩ := Nat.exists_eq_add_one_of_ne_zero (Nat.ne_zero_of_lt hfuel)
    rw [lines_line hcolumn hline hc hu (Nat.le_of_lt hn) fuel,
      if_neg fun hmore => Nat.ne_of_lt hn hmore.1]
  | @line line w s hne hline hw ih =>
    intro fuel c hcolumn hc hfuel
    obtain ⟨fuel, rfl⟩ := Nat.exists_eq_add_one_of_ne_zero (Nat.ne_zero_of_lt hfuel)
    rw [List.append_assoc, List.cons_append, List.append_assoc] at hc
    obtain ⟨hrest, hcolumn', -⟩ := Cursor.advance_line hc
    have hmore : w ++ '\n' :: (List.replicate n ' ' ++ u) ≠ [] := by simp
    have hlength : w.length < fuel := by
      simp at hfuel
      omega
    have hend : line.length + (indent + 1) + (w.length + (n + 1)) =
        (line ++ '\n' :: (List.replicate indent ' ' ++ w)).length + (n + 1) := by
      simp
      omega
    -- another line of the block follows, so that the break before it is a part of the text
    rw [lines_line hcolumn hline hc (hw.startsWith_isWhite _) (Nat.le_refl _) fuel,
      if_pos ⟨rfl, hmore⟩, ih hcolumn' hrest hlength, Cursor.advance_add, hend]

theorem header_of_lineFeed {c : Cursor} {v : List Char} (h : c.rest = '\n' :: v) :
    header c = .ok (.clip, none, c.next) := by
  have hskip : c.skipSpaces.skipComment = c := by
    have hstay : c.skipSpaces = c := Cursor.skip_spaces (n := 0) (p := (· = ' ')) rfl h rfl
    rw [hstay, Cursor.skipComment, h, if_neg (by simp)]
  have hendLine : c.endLine = .ok c.next := by
    unfold Cursor.endLine
    rw [hskip]
    have hstarts : startsBreak c.rest = true := by
      rw [h]
      rfl
    refine (if_pos hstarts).trans ?_
    rw [Cursor.skipBreak, Cursor.takeBreak?_of_isFoldBreak (b := '\n') rfl h]
  have hspace : startsSpace ('\n' :: v) = true := rfl
  have hchomp : (('\n' :: v).head?).bind chomp? = none := rfl
  have hdigit : (('\n' :: v).head?).bind digit? = none := rfl
  unfold header
  simp only [h, hchomp, hdigit, hspace]
  rw [hendLine]
  rfl

theorem leadingLines_of_spaces {c : Cursor} {indent : Nat} {v : List Char} (hindent : 0 < indent)
    (hzero : c.column = 0) (h : c.rest = List.replicate indent ' ' ++ v)
    (hv : startsWith isWhite v = false) (fuel : Nat) :
    leadingLines (fuel + 1) 0 c = ([], indent, c.advance indent) := by
  have hcolumn : (c.advance indent).column = indent := by
    rw [Cursor.column_advance_spaces h, hzero, Nat.zero_add]
  rw [leadingLines, Cursor.span_spaces (p := (· = ' ')) rfl h (startsWith_space hv)]
  simp [Cursor.takeBreak?_advance_spaces h hv, hcolumn, Nat.ne_of_gt hindent]

/-- A block is read up to the indentation of the line that follows it. -/
theorem read_of_blocked {outer : Int} {indent n : Nat} {c : Cursor} {w s u : List Char}
    (houter : outer + 1 ≤ indent) (hindent : 0 < indent) (h : Blocked indent w s)
    (hc : c.rest = '|' :: '\n' :: (List.replicate indent ' ' ++
      (w ++ '\n' :: (List.replicate n ' ' ++ u))))
    (hn : n < indent) (hu : startsWith isWhite u = false) :
    read outer c = .ok (String.ofList (s ++ ['\n']),
      c.advance (2 + indent + (w.length + (n + 1)))) := by
  have hfirst := Cursor.rest_next_of_cons hc
  have hspaces := Cursor.rest_next_of_cons hfirst
  have hzero := Cursor.column_next_lineFeed hfirst
  have hwhite := h.startsWith_isWhite ('\n' :: (List.replicate n ' ' ++ u))
  have hcolumn : (c.next.next.advance indent).column = indent := by
    rw [Cursor.column_advance_spaces hspaces, hzero, Nat.zero_add]
  have hlines := lines_of_blocked hn hu h hcolumn (Cursor.rest_advance_spaces hspaces)
    (by rw [hspaces]; simp; omega : w.length < c.next.next.rest.length + 1)
  -- the header says nothing of the indentation, which is then that of the first line
  have hleast : max (max (outer + 1) 1).toNat indent = indent := by
    omega
  have hadvance : (c.next.next.advance indent).advance (w.length + (n + 1)) =
      c.advance (2 + indent + (w.length + (n + 1))) := by
    change ((c.advance 2).advance indent).advance (w.length + (n + 1)) = _
    rw [Cursor.advance_add, Cursor.advance_add, ← Nat.add_assoc]
  unfold read
  rw [hc]
  dsimp only
  rw [header_of_lineFeed hfirst]
  dsimp only [bind, Except.bind]
  rw [leadingLines_of_spaces hindent hzero hspaces hwhite, hleast]
  simp only [List.head?_cons, Option.some.injEq, Char.reduceEq, decide_false, hlines]
  rw [hadvance]
  rfl

end Block

namespace Lexer
variable {c : Cursor} {allowed : Bool} {indent : Int} {outer : List Int} {ts : List Token}
  {ks : List Candidate}

theorem next_block (allowed : Bool) (outer : List Int) (ts : List Token) {text : String} {v : List Char}
    {d : Cursor} (hc : c.rest = '|' :: v)
    (hcol : c.column ≠ 0) (hks : ∀ k ∈ ks, k.isRequired = false)
    (hread : Block.read indent c = .ok (text, d)) :
    ((amid c allowed indent outer ts).holding ks).next =
      .ok ((amid d true indent outer (ts ++ [.scalar text false])).holding
        (ks.filter (·.level != 0))) := by
  have hnext : ((amid c allowed indent outer ts).holding ks).next =
      ((amid c allowed indent outer ts).holding ks).blockScalar := by
    simp [next, amid, holding, hc, hcol]
  have hdrop : ((amid c allowed indent outer ts).holding ks).dropCandidate =
      .ok ((amid c allowed indent outer ts).holding (ks.filter (·.level != 0))) := by
    have hnone : ¬ (ks.any fun k => k.level == 0 && k.isRequired) = true := by
      simp only [List.any_eq_true, not_exists, not_and]
      intro k hk
      simp [hks k hk]
    exact if_neg hnone
  rw [hnext, blockScalar, hdrop]
  change (Block.read indent c >>= fun p => pure
    { ((amid c allowed indent outer ts).holding (ks.filter (·.level != 0))).emit
        (.scalar p.1 false) with cursor := p.2, keyAllowed := true } : Except Failure Lexer) = _
  rw [hread]
  refine congrArg Except.ok ?_
  simp [amid, holding, emit]

theorem Stands.block {x : Lexer} {column n fold : Nat} {u w s : List Char} {m : Mark}
    (h : x.Stands (m.ink ++ ' ' :: '|' :: '\n' :: (List.replicate fold ' ' ++
      (w ++ '\n' :: (List.replicate n ' ' ++ u)))) column allowed indent outer ts)
    (hm : m.IsWord) (hindent : indent < column) (hfold : indent + 1 ≤ fold) (hpos : 0 < fold)
    (hw : Blocked fold w s) (hcolumn : 0 < column) (hu : Follows n u) (hn : n < fold) :
    ∃ y, Turns x y ∧ y.Stands u n true indent outer
      (ts ++ [m.token, .scalar (String.ofList (s ++ ['\n'])) false]) := by
  obtain ⟨d, ks, hrest, hright, hidle, hturns⟩ :=
    h.exists_marked hm hindent hcolumn ⟨rfl, by simp, by simp⟩
  have hread : Block.read indent _ = _ := Block.read_of_blocked hfold hpos hw hrest hn hu.white
  have hnext := next_block false outer (ts ++ [m.token]) hrest
    (by omega) (fun k hk => (hidle k hk).1) hread
  have hspaces := Cursor.rest_next_of_cons (Cursor.rest_next_of_cons hrest)
  have hfar : d.advance (2 + fold + (w.length + (n + 1))) =
      (d.next.next.advance fold).advance (w.length + (n + 1)) := by
    change _ = ((d.advance 2).advance fold).advance (w.length + (n + 1))
    rw [Cursor.advance_add, Cursor.advance_add, Nat.add_assoc]
  obtain ⟨hafter, hcolumn', hlater⟩ := Cursor.advance_line (Cursor.rest_advance_spaces hspaces)
  rw [← hfar] at hafter hcolumn' hlater
  have hline : d.line ≤ (d.next.next.advance fold).line := by
    change d.line ≤ ((d.advance 2).advance fold).line
    rw [Cursor.advance_add]
    exact Cursor.line_le_advance _ d
  refine ⟨_, hturns _ hnext (by simp [amid, holding]) ?_, ?_⟩
  · change (d.advance (2 + fold + (w.length + (n + 1)))).rest.length ≤ _
    rw [hafter]
    simp
    omega
  · have hstale : ∀ k ∈ ks.filter (·.level != 0), k.isRequired = false ∧
        k.line < (d.advance (2 + fold + (w.length + (n + 1)))).line := fun k hk => by
      obtain ⟨hrequired, hbefore⟩ := hidle k (List.mem_filter.mp hk).1
      exact ⟨hrequired, by omega⟩
    have hstands := stands_holding indent outer
      (ts ++ [m.token] ++ [.scalar (String.ofList (s ++ ['\n'])) false]) hafter hu.toBegins hstale
    simpa [hcolumn'] using hstands

end Lexer

end FilterTree.Yaml
