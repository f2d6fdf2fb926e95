import FilterTree.Proofs.Yaml.Block
import FilterTree.Proofs.Yaml.Page
import FilterTree.Yaml.Literal
import FilterTree.Yaml.Sketch

/-! Bytes, which are written in the letters of base64, as a block under their tag. -/

namespace FilterTree.Yaml

/-! ### Letters -/

theorem base64Digit?_base64Letter {n : Nat} (h : n < 64) :
    Scalar.base64Digit? (Sketch.base64Letter n) = some n := by
  have hall : ∀ n : Fin 64, Scalar.base64Digit? (Sketch.base64Letter n) = some n.val := by
    decide +kernel
  exact hall ⟨n, h⟩

def IsBase64 (ch : Char) : Prop :=
  ch = '=' ∨ ∃ n < 64, ch = Sketch.base64Letter n

theorem IsBase64.word {ch : Char} (h : IsBase64 ch) :
    isWhite ch = false ∧ isAllowed ch = true ∧ isWritable ch = true ∧ isFoldBreak ch = false ∧
      ch ≠ ' ' ∧ ch.toNat < 128 := by
  have hletters : ∀ n : Fin 64, let ch := Sketch.base64Letter n
      isWhite ch = false ∧ isAllowed ch = true ∧ isWritable ch = true ∧ isFoldBreak ch = false ∧
        ch ≠ ' ' ∧ ch.toNat < 128 := by
    decide +kernel
  rcases h with rfl | ⟨n, hn, rfl⟩
  · decide
  · exact hletters ⟨n, hn⟩

namespace Sketch

theorem isBase64_base64 : ∀ bs : List UInt8, ∀ ch ∈ base64 bs, IsBase64 ch
  | [], _, h => nomatch h
  | [a], ch, h => by
    have ha := a.toNat_lt
    simp only [base64, List.mem_cons, List.not_mem_nil, or_false] at h
    rcases h with rfl | rfl | rfl | rfl
    · exact .inr ⟨_, by omega, rfl⟩
    · exact .inr ⟨_, by omega, rfl⟩
    · exact .inl rfl
    · exact .inl rfl
  | [a, b], ch, h => by
    have ha := a.toNat_lt
    have hb := b.toNat_lt
    simp only [base64, List.mem_cons, List.not_mem_nil, or_false] at h
    rcases h with rfl | rfl | rfl | rfl
    · exact .inr ⟨_, by omega, rfl⟩
    · exact .inr ⟨_, by omega, rfl⟩
    · exact .inr ⟨_, by omega, rfl⟩
    · exact .inl rfl
  | a :: b :: c :: rest, ch, h => by
    have ha := a.toNat_lt
    have hb := b.toNat_lt
    have hc := c.toNat_lt
    simp only [base64, List.mem_cons] at h
    rcases h with rfl | rfl | rfl | rfl | h
    · exact .inr ⟨_, by omega, rfl⟩
    · exact .inr ⟨_, by omega, rfl⟩
    · exact .inr ⟨_, by omega, rfl⟩
    · exact .inr ⟨_, by omega, rfl⟩
    · exact isBase64_base64 rest ch h

theorem base64_ne_nil {bs : List UInt8} (h : bs ≠ []) : base64 bs ≠ [] := by
  match bs with
  | [] => exact absurd rfl h
  | [_] | [_, _] | _ :: _ :: _ :: _ => simp [base64]

end Sketch

/-! ### Decoding -/

namespace Scalar

theorem base64Letter_ne_pad {n : Nat} (h : n < 64) : Sketch.base64Letter n ≠ '=' := fun hpad => by
  have hdigit := base64Digit?_base64Letter h
  rw [hpad] at hdigit
  cases hdigit

section Letters
variable {n : Nat} (h : n < 64) (pads : Nat) (cs : List Char)
include h

theorem base64_first : base64 [] pads (Sketch.base64Letter n :: cs) = base64 [n] 0 cs := by
  rw [base64, if_neg (base64Letter_ne_pad h), base64Digit?_base64Letter h]

theorem base64_second (a : Nat) : base64 [a] pads (Sketch.base64Letter n :: cs) =
    (base64 [a, n] 0 cs).map (UInt8.ofNat (a * 4 + n / 16) :: ·) := by
  rw [base64, if_neg (base64Letter_ne_pad h), base64Digit?_base64Letter h]

theorem base64_third (a b : Nat) : base64 [a, b] pads (Sketch.base64Letter n :: cs) =
    (base64 [a, b, n] 0 cs).map (UInt8.ofNat (b % 16 * 16 + n / 4) :: ·) := by
  rw [base64, if_neg (base64Letter_ne_pad h), base64Digit?_base64Letter h]

theorem base64_fourth (a b c : Nat) : base64 [a, b, c] pads (Sketch.base64Letter n :: cs) =
    (base64 [] 0 cs).map (UInt8.ofNat (c % 4 * 64 + n) :: ·) := by
  rw [base64, if_neg (base64Letter_ne_pad h), base64Digit?_base64Letter h]

end Letters

theorem base64_lineFeed (cs : List Char) : base64 [] 0 ('\n' :: cs) = base64 [] 0 cs := by
  rw [base64, if_neg (by decide)]
  rfl

theorem base64_group (a b c : UInt8) (cs : List Char) :
    let n := (a.toNat * 256 + b.toNat) * 256 + c.toNat
    base64 [] 0 (Sketch.base64Letter (n / 262144) :: Sketch.base64Letter (n / 4096 % 64) ::
      Sketch.base64Letter (n / 64 % 64) :: Sketch.base64Letter (n % 64) :: cs) =
        (base64 [] 0 cs).map ([a, b, c] ++ ·) := by
  have ha := a.toNat_lt
  have hb := b.toNat_lt
  have hc := c.toNat_lt
  intro n
  have hfirst : n / 262144 * 4 + n / 4096 % 64 / 16 = a.toNat := by omega
  have hsecond : n / 4096 % 64 % 16 * 16 + n / 64 % 64 / 4 = b.toNat := by omega
  have hthird : n / 64 % 64 % 4 * 64 + n % 64 = c.toNat := by omega
  rw [base64_first (by omega), base64_second (by omega), base64_third (by omega),
    base64_fourth (by omega), hfirst, hsecond, hthird]
  simp only [UInt8.ofNat_toNat, Option.map_map]
  rfl

/-- Whole groups are followed by whatever comes next; otherwise the text has ended. -/
theorem base64_base64 : ∀ (bs : List UInt8) (cs : List Char),
    base64 [] 0 (Sketch.base64 bs ++ cs) =
      if bs.length % 3 = 0 then (base64 [] 0 cs).map (bs ++ ·) else some bs
  | [], cs => by
    rw [if_pos (by rfl)]
    exact Option.map_id'.symm
  | [a], cs => by
    have ha := a.toNat_lt
    have hbyte : a.toNat * 16 / 64 * 4 + a.toNat * 16 % 64 / 16 = a.toNat := by omega
    have hlength : ¬ [a].length % 3 = 0 := Nat.succ_ne_zero 0
    rw [if_neg hlength]
    simp only [Sketch.base64, List.cons_append, List.nil_append]
    rw [base64_first (by omega), base64_second (by omega), hbyte]
    simp [base64]
  | [a, b], cs => by
    have ha := a.toNat_lt
    have hb := b.toNat_lt
    have hfirst : (a.toNat * 256 + b.toNat) * 4 / 4096 * 4 +
        (a.toNat * 256 + b.toNat) * 4 / 64 % 64 / 16 = a.toNat := by omega
    have hsecond : (a.toNat * 256 + b.toNat) * 4 / 64 % 64 % 16 * 16 +
        (a.toNat * 256 + b.toNat) * 4 % 64 / 4 = b.toNat := by omega
    have hlength : ¬ [a, b].length % 3 = 0 := Nat.succ_ne_zero 1
    rw [if_neg hlength]
    simp only [Sketch.base64, List.cons_append, List.nil_append]
    rw [base64_first (by omega), base64_second (by omega), base64_third (by omega), hfirst, hsecond]
    simp [base64]
  | a :: b :: c :: bs, cs => by
    have hlength : (a :: b :: c :: bs).length % 3 = bs.length % 3 := by
      simp only [List.length_cons]
      omega
    rw [hlength, Sketch.base64]
    simp only [List.cons_append]
    rw [base64_group, base64_base64 bs cs]
    split
    · rw [Option.map_map]
      rfl
    · rfl

theorem base64_base64Lines (fuel : Nat) (bs : List UInt8) (h : bs.length < fuel) :
    base64 [] 0 (Sketch.base64Lines fuel bs).toList = some bs := by
  induction fuel generalizing bs with
  | zero => exact absurd h (Nat.not_lt_zero _)
  | succ fuel ih =>
    rw [Sketch.base64Lines]
    split
    · next hnil =>
      rw [List.isEmpty_iff.mp hnil]
      rfl
    · next hne =>
      have hpos : 0 < bs.length := List.length_pos_iff.mpr fun hnil => hne (by rw [hnil]; rfl)
      have hmore := ih (bs.drop 57) (by rw [List.length_drop]; omega)
      rw [String.toList_append, String.toList_append, String.toList_ofList, List.append_assoc,
        base64_base64]
      split
      · have hline : base64 [] 0 ("\n".toList ++ (Sketch.base64Lines fuel (bs.drop 57)).toList) =
            some (bs.drop 57) := (base64_lineFeed _).trans hmore
        rw [hline, Option.map_some, List.take_append_drop]
      · next hrest =>
        -- a line that is not full is the last one
        rw [List.length_take] at hrest
        rw [List.take_of_length_le (by omega)]

end Scalar

/-! ### Lines -/

namespace Sketch

theorem base64Lines_nil (fuel : Nat) : base64Lines fuel [] = "" := by
  cases fuel <;> rfl

theorem exists_blocked_base64Lines (indent fuel : Nat) (bs : List UInt8) (hne : bs ≠ [])
    (h : bs.length < fuel) : ∃ w s, (base64Lines fuel bs).toList = s ++ ['\n'] ∧
      Blocked indent w s ∧ (∀ ch ∈ w, isAllowed ch = true) ∧ ∀ ch ∈ s, ch = '\n' ∨ IsBase64 ch := by
  -- A round writes the line of the first 57 bytes.
  induction fuel generalizing bs with
  | zero => exact absurd h (Nat.not_lt_zero _)
  | succ fuel ih =>
    have hpos := List.length_pos_iff.mpr hne
    have hline : base64 (bs.take 57) ≠ [] :=
      base64_ne_nil fun hnil => by simp [hne] at hnil
    have hletters := isBase64_base64 (bs.take 57)
    have hsolid : ∀ ch ∈ base64 (bs.take 57), isWhite ch = false := fun ch hch =>
      (hletters ch hch).word.1
    have hallowed : ∀ ch ∈ base64 (bs.take 57), isAllowed ch = true := fun ch hch =>
      (hletters ch hch).word.2.1
    have htext : (base64Lines (fuel + 1) bs).toList =
        base64 (bs.take 57) ++ '\n' :: (base64Lines fuel (bs.drop 57)).toList := by
      rw [base64Lines, if_neg (by simpa using hne), String.toList_append, String.toList_append,
        String.toList_ofList, List.append_assoc]
      rfl
    rw [htext]
    by_cases hrest : bs.drop 57 = []
    · rw [hrest, base64Lines_nil]
      exact ⟨_, _, rfl, .last hline hsolid, hallowed, fun ch hch => .inr (hletters ch hch)⟩
    · obtain ⟨w, s, hs, hblocked, hw, hmore⟩ :=
        ih (bs.drop 57) hrest (by rw [List.length_drop]; omega)
      refine ⟨_, base64 (bs.take 57) ++ '\n' :: s, by rw [hs]; simp, .line hline hsolid hblocked,
        List.forall_mem_append.mpr ⟨hallowed, isAllowed_line indent hw⟩,
        List.forall_mem_append.mpr ⟨fun ch hch => .inr (hletters ch hch),
          List.forall_mem_cons.mpr ⟨.inl rfl, hmore⟩⟩⟩

end Sketch

namespace Page

theorem blockLines_word (column : Nat) {line : List Char}
    (hline : ∀ ch ∈ line, isFoldBreak ch = false) (rest : List Char) (p : Page) : ∃ q : Page,
    p.Adds (line ++ ['\n']) q ∧ q.IsAt 0 ∧
      blockLines column false (line ++ '\n' :: rest) p = blockLines column true rest q := by
  induction line generalizing p with
  | nil => exact ⟨p.breakLine '\n', p.adds_breakLine '\n', p.isAt_breakLine '\n', rfl⟩
  | cons ch line ih =>
    obtain ⟨hch, hline⟩ := List.forall_mem_cons.mp hline
    obtain ⟨q, hq, hat, hmore⟩ := ih hline { p with text := p.text.push ch }
    refine ⟨q, ?_, hat, ?_⟩
    · have hpush : p.Adds [ch] { p with text := p.text.push ch } := String.toList_push ch
      exact hpush.trans hq
    · rw [List.cons_append, blockLines, hch, if_neg Bool.false_ne_true]
      exact hmore

theorem blockLines_line (column : Nat) {line : List Char} (hne : line ≠ [])
    (hline : ∀ ch ∈ line, isFoldBreak ch = false) (rest : List Char) {p : Page} (hat : p.IsAt 0) :
    ∃ q : Page, p.Adds (List.replicate column ' ' ++ line ++ ['\n']) q ∧ q.IsAt 0 ∧
      blockLines column true (line ++ '\n' :: rest) p = blockLines column true rest q := by
  obtain ⟨ch, line, rfl⟩ := List.exists_cons_of_ne_nil hne
  obtain ⟨hch, hline⟩ := List.forall_mem_cons.mp hline
  have hroom : p.column ≤ column := by
    rw [hat.column_eq]
    exact Nat.zero_le column
  obtain ⟨hindent, -⟩ := indent_inline hat.atIndent hroom fun _ => hat.afterBlank
  rw [hat.column_eq, Nat.sub_zero] at hindent
  obtain ⟨q, hq, hat', hmore⟩ := blockLines_word column hline rest
    { p.indent column with text := (p.indent column).text.push ch }
  have hpush : (p.indent column).Adds [ch]
      { p.indent column with text := (p.indent column).text.push ch } := String.toList_push ch
  refine ⟨q, ?_, hat', ?_⟩
  · simpa using (hindent.trans hpush).trans hq
  · rw [List.cons_append, blockLines, hch, if_neg Bool.false_ne_true, if_pos rfl]
    exact hmore

theorem isFoldBreak_of_solid {ch : Char} (h : isWhite ch = false) : isFoldBreak ch = false := by
  refine Bool.eq_false_iff.mpr fun hbreak => ?_
  simp only [isFoldBreak, Bool.or_eq_true, decide_eq_true_eq] at hbreak
  rcases hbreak with ((rfl | rfl) | rfl) | rfl <;> exact Bool.noConfusion h

theorem adds_blockLines {column : Nat} {w s : List Char} (h : Blocked column w s) {p : Page}
    (hat : p.IsAt 0) :
    p.Adds (List.replicate column ' ' ++ w ++ ['\n']) (blockLines column true (s ++ ['\n']) p) ∧
      (blockLines column true (s ++ ['\n']) p).IsAt 0 := by
  induction h generalizing p with
  | last hne hline =>
    obtain ⟨q, hq, hat', hend⟩ := blockLines_line column hne
      (fun ch hch => isFoldBreak_of_solid (hline ch hch)) [] hat
    rw [hend]
    exact ⟨hq, hat'⟩
  | @line line w s hne hline _ ih =>
    obtain ⟨q, hq, hat', hmore⟩ := blockLines_line column hne
      (fun ch hch => isFoldBreak_of_solid (hline ch hch)) (s ++ ['\n']) hat
    obtain ⟨hrest, hend⟩ := ih hat'
    rw [List.append_assoc line, List.cons_append, hmore]
    exact ⟨by simpa using hq.trans hrest, hend⟩

end Page

theorem Blocked.exists_ends {indent : Nat} {w s : List Char} (h : Blocked indent w s) :
    (∃ ch more, s = ch :: more ∧ isWhite ch = false) ∧
      ∃ before ch, s = before ++ [ch] ∧ isWhite ch = false := by
  induction h with
  | @last line hne hline =>
    obtain ⟨ch, more, rfl⟩ := List.exists_cons_of_ne_nil hne
    exact ⟨⟨ch, more, rfl, hline ch List.mem_cons_self⟩, _, _,
      (List.dropLast_concat_getLast hne).symm, hline _ (List.getLast_mem hne)⟩
  | @line line w s hne hline _ ih =>
    obtain ⟨ch, more, rfl⟩ := List.exists_cons_of_ne_nil hne
    obtain ⟨-, before, d, rfl, hd⟩ := ih
    exact ⟨⟨ch, _, rfl, hline ch List.mem_cons_self⟩, ch :: (more ++ '\n' :: before), d, by simp, hd⟩

theorem Blocked.blockHints_eq {indent : Nat} {w s : List Char} (h : Blocked indent w s) :
    Page.blockHints (s ++ ['\n']) = "" := by
  obtain ⟨⟨first, more, hfirst, hsolid⟩, before, last, hlast, hend⟩ := h.exists_ends
  have hhead : (s ++ ['\n']).head? = some first := by rw [hfirst]; rfl
  have hreverse : (s ++ ['\n']).reverse = '\n' :: last :: before.reverse := by
    rw [hlast]
    simp
  have hspace : first ≠ ' ' := by
    rintro rfl
    exact Bool.noConfusion hsolid
  have hbreak : isFoldBreak '\n' = true := rfl
  unfold Page.blockHints
  rw [hhead, hreverse]
  simp [hspace, Page.isFoldBreak_of_solid hsolid, startsWith, Page.isFoldBreak_of_solid hend, hbreak]

namespace Features

theorem allowsBlock_of_forall {cs : List Char} (hne : cs ≠ [])
    (h : ∀ ch ∈ cs, isWritable ch = true ∧ ch ≠ ' ') : (ofChars cs).allowsBlock = true := by
  obtain ⟨first, rest, rfl⟩ := List.exists_cons_of_ne_nil hne
  have hpair : hasPair (fun ch => decide (ch = ' ')) isFoldBreak (first :: rest) = false :=
    hasPair_eq_false fun ch hch => decide_eq_false (h ch hch).2
  have hwritable : (first :: rest).all isWritable = true :=
    List.all_eq_true.mpr fun ch hch => (h ch hch).1
  have hlast := (h _ (List.getLast_mem hne)).2
  unfold ofChars
  simp only [List.getLast?_eq_some_getLast hne, Option.getD_some, hpair, hwritable, hlast]
  rfl

end Features

namespace Scalar

def ofBytes (bs : List UInt8) : Scalar :=
  ⟨Tags.binary, Sketch.base64Lines (bs.length + 1) bs, true⟩

theorem read_ofBytes (bs : List UInt8) (serial : Nat) :
    read serial Tags.binary (ofBytes bs).text = .ok (.bytes bs) := by
  have hdecode : base64 [] 0 (ofBytes bs).text.toList = some bs :=
    base64_base64Lines (bs.length + 1) bs (Nat.lt_succ_self _)
  have hletters : (ofBytes bs).text.toList.all (·.toNat < 128) = true := by
    by_cases hne : bs = []
    · subst hne
      rfl
    · obtain ⟨-, s, htext, -, -, hs⟩ :=
        Sketch.exists_blocked_base64Lines 0 (bs.length + 1) bs hne (Nat.lt_succ_self _)
      refine List.all_eq_true.mpr fun ch hch => decide_eq_true ?_
      rcases List.mem_append.mp (htext ▸ hch : ch ∈ s ++ ['\n']) with hch | hch
      · rcases hs ch hch with rfl | hch
        · decide
        · exact hch.word.2.2.2.2.2
      · rw [List.mem_singleton.mp hch]
        decide
  have hread : readBinary (ofBytes bs).text = .ok (.bytes bs) := by
    rw [readBinary, if_pos hletters, hdecode]
  exact hread

theorem needsTag_ofBytes (bs : List UInt8) {style : Style} (h : style ≠ .plain) :
    (ofBytes bs).needsTag style = true := by
  rw [needsTag, if_neg h]
  exact decide_eq_true (by decide : Tags.binary ≠ Tags.str)

theorem style_ofBytes {bs : List UInt8} {s : List Char}
    (h : (ofBytes bs).text.toList = s ++ ['\n']) (hs : ∀ ch ∈ s, ch = '\n' ∨ IsBase64 ch) :
    (ofBytes bs).style false = .block := by
  have hall : ∀ ch ∈ s ++ ['\n'], isWritable ch = true ∧ ch ≠ ' ' := fun ch hch => by
    rcases List.mem_append.mp hch with hch | hch
    · rcases hs ch hch with rfl | hch
      · decide
      · exact ⟨hch.word.2.2.1, hch.word.2.2.2.2.1⟩
    · rw [List.mem_singleton.mp hch]
      decide
  have hallows : (ofBytes bs).features.allowsBlock = true := by
    rw [features, h]
    exact Features.allowsBlock_of_forall (by simp) hall
  have hblock : (ofBytes bs).asBlock = true := rfl
  simp [style, hallows, hblock]

theorem closes_ofBytes_nil (column : Nat) (p : Page) :
    p.Closes (p.gap ++ (Mark.binary.ink ++ [' ', '"', '"']))
      (p.scalar column false (ofBytes [])) := by
  have htag := p.adds_property (Tags.shorthand Tags.binary)
  rw [shorthand_binary] at htag
  have hopen := (p.property (Tags.shorthand Tags.binary)).adds_property "\""
  have hempty := ((p.property (Tags.shorthand Tags.binary)).property "\"").adds_write ""
  have hclose := (((p.property (Tags.shorthand Tags.binary)).property "\"").write "").adds_mark "\""
    false false
  have hgap : (p.property (Tags.shorthand Tags.binary)).gap = [' '] := rfl
  rw [shorthand_binary] at hopen hempty hclose hgap
  rw [hgap] at hopen
  have hscalar : p.scalar column false (ofBytes []) =
      (((p.property (Tags.shorthand Tags.binary)).property "\"").write "").mark "\"" false false := rfl
  rw [hscalar, shorthand_binary]
  refine Page.Adds.closes ?_ (Bool.and_false _)
  simpa [Mark.ink] using ((htag.trans hopen).trans hempty).trans hclose

theorem exists_closes_ofBytes (column : Nat) {bs : List UInt8} (hne : bs ≠ []) (p : Page) :
    ∃ w s, (ofBytes bs).text.toList = s ++ ['\n'] ∧ Blocked column w s ∧
      (∀ ch ∈ w, isAllowed ch = true) ∧
      p.Closes (p.gap ++ (Mark.binary.ink ++ ' ' :: '|' :: '\n' :: (List.replicate column ' ' ++ w)))
        (p.scalar column false (ofBytes bs)) := by
  obtain ⟨w, s, htext, hblocked, hallowed, hletters⟩ :=
    Sketch.exists_blocked_base64Lines column (bs.length + 1) bs hne (Nat.lt_succ_self _)
  have htext : (ofBytes bs).text.toList = s ++ ['\n'] := htext
  refine ⟨w, s, htext, hblocked, hallowed, ?_⟩
  have hstyle := style_ofBytes htext hletters
  have htag := p.adds_property (Tags.shorthand Tags.binary)
  have hmark := (p.property (Tags.shorthand Tags.binary)).adds_property "|"
  have hline := ((p.property (Tags.shorthand Tags.binary)).property "|").adds_breakLine '\n'
  obtain ⟨hlines, hat⟩ := Page.adds_blockLines hblocked
    (((p.property (Tags.shorthand Tags.binary)).property "|").isAt_breakLine '\n')
  have hscalar : p.scalar column false (ofBytes bs) = Page.blockLines column true (s ++ ['\n'])
      (((p.property (Tags.shorthand Tags.binary)).property "|").breakLine '\n') := by
    unfold Page.scalar
    dsimp only
    rw [hstyle, needsTag_ofBytes bs (by decide), if_pos rfl]
    dsimp only
    rw [Page.block, htext, hblocked.blockHints_eq]
    rfl
  rw [hscalar]
  refine Page.Adds.closes_of_isAt ?_ hat
  have hall := ((htag.trans hmark).trans hline).trans hlines
  have hgap : (p.property (Tags.shorthand Tags.binary)).gap = [' '] := rfl
  rw [shorthand_binary] at hall hgap ⊢
  rw [hgap] at hall
  simpa [Mark.ink] using hall

end Scalar

end FilterTree.Yaml
