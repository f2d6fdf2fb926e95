import FilterTree.Proofs.Yaml.Page
import FilterTree.Proofs.Yaml.Quoted

/-! Texts in single quotes. They are read back with their breaks, long lines folded at a space included,
but a next-line character counts as a line feed there, and the first one of several breaks is dropped. -/

namespace FilterTree.Yaml

/-! ### What breaks become -/

/-- What reading makes of the breaks in a text between single quotes. -/
def relined (afterBreak : Bool) : List Char → List Char
  | [] => []
  | c :: cs =>
    if c = '\x85' then
      let lineFeed :=
        if afterBreak then ['\n'] else if startsWith isFoldBreak cs then [] else [' ']
      lineFeed ++ relined true cs
    else c :: relined (isFoldBreak c) cs

theorem relined_eq_self {cs : List Char} (h : '\x85' ∉ cs) (afterBreak : Bool) :
    relined afterBreak cs = cs := by
  induction cs generalizing afterBreak with
  | nil => rfl
  | cons c cs ih =>
    have hc : c ≠ '\x85' := fun hc => h (hc ▸ List.mem_cons_self)
    rw [relined, if_neg hc, ih fun hcs => h (List.mem_cons_of_mem c hcs)]

theorem relined_of_startsWith {cs : List Char} (h : startsWith isFoldBreak cs = false)
    (afterBreak : Bool) : relined afterBreak cs = relined false cs := by
  cases cs with
  | nil => rfl
  | cons c cs =>
    have hc : c ≠ '\x85' := by
      rintro rfl
      cases h
    rw [relined, relined, if_neg hc, if_neg hc]

theorem relined_append {w cs : List Char} (hw : ∀ c ∈ w, isFoldBreak c = false) :
    relined false (w ++ cs) = w ++ relined false cs := by
  induction w with
  | nil => rfl
  | cons c w ih =>
    obtain ⟨hc, hw⟩ := List.forall_mem_cons.mp hw
    have hne : c ≠ '\x85' := by
      rintro rfl
      cases hc
    rw [List.cons_append, relined, if_neg hne, hc, ih hw]
    rfl

theorem relined_breaks {bs cs : List Char} (hbs : ∀ b ∈ bs, isFoldBreak b = true)
    (hcs : startsWith isFoldBreak cs = false) :
    relined true (bs ++ cs) = bs.map asBreak ++ relined false cs := by
  induction bs with
  | nil => exact relined_of_startsWith hcs true
  | cons b bs ih =>
    obtain ⟨hb, hmore⟩ := List.forall_mem_cons.mp hbs
    rw [List.cons_append, relined]
    split
    · next h =>
      rw [h, ih hmore]
      rfl
    · next h =>
      rw [hb, ih hmore, List.map_cons, asBreak, if_neg h]
      rfl

def writtenRun (run : List Char) : List Char :=
  if run.head? = some '\n' then '\n' :: run else run

theorem exists_writtenRun {b : Char} {bs cs : List Char} (hbs : ∀ c ∈ b :: bs, isFoldBreak c = true)
    (hcs : startsWith isFoldBreak cs = false) :
    ∃ d ds, writtenRun (b :: bs) = d :: ds ∧ (∀ c ∈ d :: ds, isFoldBreak c = true) ∧
      fold (asBreak d) (ds.map asBreak) ++ relined false cs = relined false (b :: (bs ++ cs)) := by
  obtain ⟨hb, hmore⟩ := List.forall_mem_cons.mp hbs
  have hrest := relined_breaks hmore hcs
  by_cases hfeed : b = '\n'
  · subst hfeed
    refine ⟨'\n', '\n' :: bs, rfl, List.forall_mem_cons.mpr ⟨rfl, hbs⟩, ?_⟩
    rw [relined, if_neg (by decide)]
    change _ = '\n' :: relined true (bs ++ cs)
    rw [hrest]
    rfl
  · have hhead : (b :: bs).head? ≠ some '\n' := fun h => hfeed (Option.some.inj h)
    refine ⟨b, bs, if_neg hhead, hbs, ?_⟩
    by_cases hnext : b = '\x85'
    · subst hnext
      rw [relined, if_pos rfl, hrest]
      cases bs with
      | nil => simp [hcs, fold, asBreak]
      | cons c bs =>
        have hc : isFoldBreak c = true := hmore c List.mem_cons_self
        simp [startsWith, hc, fold, asBreak]
    · rw [relined, if_neg hnext, hb, hrest]
      simp [asBreak, hnext, fold, hfeed]

/-! ### Writing -/

theorem isWhite_of_isWritable {c : Char} (h : isWritable c = true) (hspace : c ≠ ' ')
    (hbreak : isFoldBreak c = false) : isWhite c = false := by
  refine Bool.eq_false_iff.mpr fun hwhite => ?_
  rcases cases_of_isWhite hwhite with rfl | rfl | rfl | rfl | rfl | rfl | rfl
  · exact hspace rfl
  · cases h
  · cases hbreak
  · cases h
  all_goals cases hbreak

theorem isBreak_of_isWritable {c : Char} (h : isWritable c = true) (hbreak : isFoldBreak c = false) :
    isBreak c = false := by
  by_cases hspace : c = ' '
  · rw [hspace]
    rfl
  · exact (Bool.or_eq_false_iff.mp (isWhite_of_isWritable h hspace hbreak)).2

theorem isAllowed_of_isWritable {c : Char} (h : isWritable c = true) : isAllowed c = true := by
  simp only [isWritable, Bool.or_eq_true, Bool.and_eq_true, decide_eq_true_eq] at h
  simp only [isAllowed, Bool.or_eq_true, Bool.and_eq_true, decide_eq_true_eq]
  rcases h with (rfl | h) | h
  · decide
  · omega
  · omega

theorem Features.hasPair_eq_false {p q : Char → Bool} {cs : List Char}
    (h : ∀ c ∈ cs, p c = false) : hasPair p q cs = false := by
  induction cs with
  | nil => rfl
  | cons c cs ih =>
    rw [hasPair, h c List.mem_cons_self, ih fun d hd => h d (List.mem_cons_of_mem c hd)]
    rfl

theorem Features.hasPair_eq_false_of_second {p q : Char → Bool} {cs : List Char}
    (h : ∀ c ∈ cs, q c = false) : hasPair p q cs = false := by
  induction cs with
  | nil => rfl
  | cons c cs ih =>
    have hcs : ∀ d ∈ cs, q d = false := fun d hd => h d (List.mem_cons_of_mem c hd)
    have hnext : startsWith q cs = false := by
      cases cs with
      | nil => rfl
      | cons d cs => exact hcs d List.mem_cons_self
    rw [hasPair, hnext, ih hcs, Bool.and_false, Bool.or_self]

theorem hasPair_append {p q : Char → Bool} {run rest : List Char}
    (h : Features.hasPair p q (run ++ rest) = false) : Features.hasPair p q rest = false := by
  induction run with
  | nil => exact h
  | cons c run ih => exact ih (Bool.or_eq_false_iff.mp h).2

theorem startsWith_of_hasPair {p q : Char → Bool} {c : Char} {run rest : List Char}
    (h : Features.hasPair p q (c :: (run ++ rest)) = false) (hrun : ∀ d ∈ c :: run, p d = true) :
    startsWith q rest = false := by
  induction run generalizing c with
  | nil =>
    have hpair := (Bool.or_eq_false_iff.mp h).1
    rwa [hrun c List.mem_cons_self, Bool.true_and] at hpair
  | cons d run ih =>
    exact ih (Bool.or_eq_false_iff.mp h).2 fun e he => hrun e (List.mem_cons_of_mem c he)

structure Foldable (cs : List Char) : Prop where
  breakSpace : Features.hasPair isFoldBreak (· = ' ') cs = false
  spaceBreak : Features.hasPair (· = ' ') isFoldBreak cs = false
  writable : ∀ c ∈ cs, isWritable c = true

namespace Foldable

theorem of_append {run rest : List Char} (h : Foldable (run ++ rest)) : Foldable rest where
  breakSpace := hasPair_append h.breakSpace
  spaceBreak := hasPair_append h.spaceBreak
  writable c hc := h.writable c (List.mem_append_right run hc)

theorem startsWith_isWhite {cs : List Char} (h : Foldable cs)
    (hspace : startsWith (· = ' ') cs = false) (hbreak : startsWith isFoldBreak cs = false) :
    startsWith isWhite cs = false := by
  cases cs with
  | nil => rfl
  | cons c cs =>
    exact isWhite_of_isWritable (h.writable c List.mem_cons_self)
      (by simpa [startsWith] using hspace)
      hbreak

end Foldable

namespace Page

def runKind (c : Char) : Nat :=
  if c = ' ' then 0 else if isFoldBreak c then 1 else 2

theorem runKind_eq_zero {c : Char} : runKind c = 0 ↔ c = ' ' := by
  unfold runKind
  split
  · next h => simp [h]
  · next h => split <;> simp [h]

theorem runKind_eq_one {c : Char} : runKind c = 1 ↔ isFoldBreak c = true := by
  unfold runKind
  split
  · next h => simp [h, isFoldBreak]
  · split <;> simp [*]

theorem runKind_eq_two {c : Char} : runKind c = 2 ↔ c ≠ ' ' ∧ isFoldBreak c = false := by
  unfold runKind
  split
  · next h => simp [h]
  · next h => split <;> simp [*]

theorem singleRuns_run (column : Nat) (split : Bool) (fuel : Nat) (first : Bool) {c : Char}
    {cs run rest : List Char} (htake : (c :: cs).takeWhile (runKind · = runKind c) = c :: run)
    (hdrop : (c :: cs).drop (c :: run).length = rest) (p : Page) :
    singleRuns column split (fuel + 1) first (c :: cs) p =
      singleRuns column split fuel false rest
        (if c = ' ' then
          if (c :: run).length = 1 ∧ p.isTooLong ∧ split ∧ !first ∧ !rest.isEmpty then
            p.indent column
          else p.write (String.ofList (c :: run))
        else if isFoldBreak c then p.writeBreaks column (c :: run)
        else p.write (String.ofList ((c :: run).flatMap doubledQuote))) := by
  subst hdrop
  rw [← htake]
  rfl

theorem isAt_foldl_breakLine (b : Char) (bs : List Char) (p : Page) :
    p.Adds (b :: bs) ((b :: bs).foldl breakLine p) ∧ ((b :: bs).foldl breakLine p).IsAt 0 := by
  induction bs generalizing b p with
  | nil => exact ⟨p.adds_breakLine b, p.isAt_breakLine b⟩
  | cons c bs ih =>
    obtain ⟨hadds, hat⟩ := ih c (p.breakLine b)
    exact ⟨(p.adds_breakLine b).trans hadds, hat⟩

theorem writeBreaks_line (column : Nat) (b : Char) (bs : List Char) (p : Page) :
    p.Adds (writtenRun (b :: bs) ++ List.replicate column ' ')
        (p.writeBreaks column (b :: bs)) ∧ (p.writeBreaks column (b :: bs)).IsAt column := by
  have hindent (q : Page) (hq : q.IsAt 0) : q.Adds (List.replicate column ' ') (q.indent column) ∧
      (q.indent column).IsAt column := by
    have h := indent_inline hq.atIndent (by rw [hq.column_eq]; omega : q.column ≤ column)
      (fun _ => hq.afterBlank)
    rwa [hq.column_eq] at h
  unfold writeBreaks writtenRun
  dsimp only
  split
  · obtain ⟨hadds, hat⟩ := isAt_foldl_breakLine b bs (p.breakLine '\n')
    obtain ⟨hline, hcolumn⟩ := hindent _ hat
    exact ⟨((p.adds_breakLine '\n').trans hadds).trans hline, hcolumn⟩
  · obtain ⟨hadds, hat⟩ := isAt_foldl_breakLine b bs p
    obtain ⟨hline, hcolumn⟩ := hindent _ hat
    exact ⟨hadds.trans hline, hcolumn⟩

/-- What is written stands for what reading makes of the characters. -/
def Singles (column : Nat) (split : Bool) (fuel : Nat) (cs : List Char) : Prop :=
  ∀ first (p : Page), (p.atIndent = true → column ≤ p.column) →
    (first = false → startsWith (· = ' ') cs = true → p.Past column) → ∃ w,
      p.Adds w (singleRuns column split fuel first cs p) ∧ Quotes false w (relined false cs) ∧
        (startsWith isWhite cs = false → startsWith isWhite w = false)

theorem Singles.next {column : Nat} {split : Bool} {fuel : Nat} {rest : List Char}
    (h : Singles column split fuel rest) (hrest : startsWith isWhite rest = false) {q : Page}
    (hq : q.atIndent = true → column ≤ q.column) : ∃ w,
      q.Adds w (singleRuns column split fuel false rest q) ∧
        Quotes false w (relined false rest) ∧ startsWith isWhite w = false := by
  have hkept := startsWith_space hrest
  obtain ⟨w, hw, hquotes, hwhite⟩ :=
    h false q hq fun _ hspace => absurd (hkept.symm.trans hspace) Bool.false_ne_true
  exact ⟨w, hw, hquotes, hwhite hrest⟩

theorem singles_spaces {column : Nat} (hcolumn : 0 < column) {split : Bool} {fuel : Nat}
    {run rest : List Char} (htake : (' ' :: (run ++ rest)).takeWhile (runKind · = runKind ' ') =
      ' ' :: run) (hdrop : (' ' :: (run ++ rest)).drop (' ' :: run).length = rest)
    (hrun : ∀ c ∈ ' ' :: run, c = ' ') (hrest : startsWith isWhite rest = false)
    (h : Singles column split fuel rest) :
    Singles column split (fuel + 1) (' ' :: (run ++ rest)) := by
  intro first p hroom hpast
  have hspaces : ' ' :: run = List.replicate (run.length + 1) ' ' :=
    List.eq_replicate_of_mem hrun
  have hlined : relined false (' ' :: (run ++ rest)) = ' ' :: run ++ relined false rest := by
    rw [← List.cons_append]
    exact relined_append fun c hc => by rw [hrun c hc]; rfl
  rw [singleRuns_run column split fuel first htake hdrop p, if_pos rfl, hlined]
  split
  · next hfold =>
    obtain ⟨hone, -, -, hfirst, -⟩ := hfold
    have hnil : run = [] := List.length_eq_zero_iff.mp (Nat.succ.inj hone)
    subst hnil
    obtain ⟨hline, hat⟩ := indent_line (hpast (by simpa using hfirst) rfl)
    obtain ⟨w, hw, hquotes, hwhite⟩ :=
      h.next hrest (q := p.indent column) fun _ => Nat.le_of_eq hat.column_eq.symm
    refine ⟨_, hline.trans hw, ?_, fun hstart => by cases hstart⟩
    have hbreak : ∀ b ∈ ['\n'], isFoldBreak b = true := by simp [isFoldBreak]
    exact .breaks hbreak hcolumn hwhite hquotes
  · obtain ⟨w, hw, hquotes, hwhite⟩ :=
      h.next hrest (q := p.write (String.ofList (' ' :: run))) fun hindent =>
        Nat.le_trans (hroom hindent) (Nat.le_add_right _ _)
    refine ⟨_, (p.adds_ofList (' ' :: run)).trans hw, ?_, fun hstart => by cases hstart⟩
    rw [hspaces]
    exact .blanks (Nat.succ_pos _) hwhite hquotes

theorem singles_breaks {column : Nat} (hcolumn : 0 < column) {split : Bool} {fuel : Nat} {b : Char}
    {run rest : List Char} (htake : (b :: (run ++ rest)).takeWhile (runKind · = runKind b) =
      b :: run) (hdrop : (b :: (run ++ rest)).drop (b :: run).length = rest)
    (hrun : ∀ c ∈ b :: run, isFoldBreak c = true) (hrest : startsWith isWhite rest = false)
    (hbreak : startsWith isFoldBreak rest = false) (h : Singles column split fuel rest) :
    Singles column split (fuel + 1) (b :: (run ++ rest)) := by
  intro first p hroom hpast
  have hb := hrun b List.mem_cons_self
  have hspace : b ≠ ' ' := by
    rintro rfl
    cases hb
  have hwhite : isWhite b = true := by
    rw [isWhite, isBreak_of_isFoldBreak hb, Bool.or_true]
  obtain ⟨hline, hat⟩ := writeBreaks_line column b run p
  obtain ⟨w, hw, hquotes, hw'⟩ := h.next hrest (q := p.writeBreaks column (b :: run)) fun _ =>
    Nat.le_of_eq hat.column_eq.symm
  obtain ⟨d, ds, hwritten, hds, hfold⟩ := exists_writtenRun hrun hbreak
  rw [singleRuns_run column split fuel first htake hdrop p, if_neg hspace, if_pos hb]
  refine ⟨_, hline.trans hw, ?_, fun hstart => absurd (hstart.symm.trans hwhite) Bool.false_ne_true⟩
  rw [hwritten, ← hfold, List.append_assoc]
  exact .breaks hds hcolumn hw' hquotes

theorem quotes_doubledQuote {run w s : List Char} (hrun : ∀ c ∈ run, isWhite c = false)
    (hallowed : ∀ c ∈ run, isAllowed c = true)
    (h : Quotes false w s) : Quotes false (run.flatMap doubledQuote ++ w) (run ++ s) := by
  induction run with
  | nil => exact h
  | cons c run ih =>
    obtain ⟨hc, hmore⟩ := List.forall_mem_cons.mp hrun
    obtain ⟨hc', hmore'⟩ := List.forall_mem_cons.mp hallowed
    rw [List.flatMap_cons, List.append_assoc]
    unfold doubledQuote
    split
    · next hquote =>
      rw [hquote]
      exact .quote rfl (ih hmore hmore')
    · next hquote => exact .char hc' hc hquote nofun (ih hmore hmore')

theorem singles_words {column : Nat} {split : Bool} {fuel : Nat} {c : Char} {run rest : List Char}
    (htake : (c :: (run ++ rest)).takeWhile (runKind · = runKind c) = c :: run)
    (hdrop : (c :: (run ++ rest)).drop (c :: run).length = rest)
    (hspace : ∀ d ∈ c :: run, d ≠ ' ') (hbreak : ∀ d ∈ c :: run, isFoldBreak d = false)
    (hwhite : ∀ d ∈ c :: run, isWhite d = false) (hallowed : ∀ d ∈ c :: run, isAllowed d = true)
    (h : Singles column split fuel rest) :
    Singles column split (fuel + 1) (c :: (run ++ rest)) := by
  intro first p hroom hpast
  have hc := hbreak c List.mem_cons_self
  have hlength : 0 < (String.ofList ((c :: run).flatMap doubledQuote)).length := by
    rw [String.length_ofList, List.flatMap_cons, List.length_append]
    unfold doubledQuote
    split <;> exact Nat.add_pos_left (Nat.succ_pos _) _
  obtain ⟨w, hw, hquotes, -⟩ :=
    h false (p.write (String.ofList ((c :: run).flatMap doubledQuote)))
      (fun hindent => Nat.le_trans (hroom hindent) (Nat.le_add_right _ _))
      (fun _ _ hindent => Nat.lt_of_le_of_lt (hroom hindent) (Nat.lt_add_of_pos_right hlength))
  rw [singleRuns_run column split fuel first htake hdrop p, if_neg (hspace c List.mem_cons_self),
    if_neg (Bool.not_eq_true _ ▸ hc)]
  refine ⟨_, (p.adds_ofList _).trans hw, ?_, fun _ => ?_⟩
  · rw [← List.cons_append, relined_append hbreak]
    exact quotes_doubledQuote hwhite hallowed hquotes
  · rw [List.flatMap_cons]
    unfold doubledQuote
    split
    · rfl
    · exact hwhite c List.mem_cons_self

theorem singles {column : Nat} (hcolumn : 0 < column) (split : Bool) (fuel : Nat) (cs : List Char)
    (hcs : Foldable cs) (hfuel : cs.length < fuel) : Singles column split fuel cs := by
  -- The writer takes a run of spaces, of breaks or of other characters at a time.
  induction fuel generalizing cs with
  | zero => cases hfuel
  | succ fuel ih =>
    cases cs with
    | nil => exact fun first p _ _ => ⟨[], .refl p, .nil, fun _ => rfl⟩
    | cons c cs =>
      obtain ⟨run, rest, htake, hdrop, hcs', hrun, hrest⟩ :=
        exists_run (p := (runKind · = runKind c)) (c := c) (decide_eq_true rfl) cs
      subst hcs'
      rw [← List.cons_append] at hcs
      have hfold : Foldable rest := hcs.of_append
      have hnext := ih rest hfold (by simp at hfuel; omega)
      by_cases hspace : c = ' '
      · subst hspace
        have hrun : ∀ d ∈ ' ' :: run, d = ' ' := fun d hd =>
          runKind_eq_zero.mp (of_decide_eq_true (hrun d hd))
        have hkept : startsWith (· = ' ') rest = false := by
          simpa only [show runKind ' ' = 0 from rfl, runKind_eq_zero] using hrest
        have hbreak := startsWith_of_hasPair hcs.spaceBreak fun d hd => decide_eq_true (hrun d hd)
        exact singles_spaces hcolumn htake hdrop hrun (hfold.startsWith_isWhite hkept hbreak) hnext
      · cases hc : isFoldBreak c with
        | true =>
          have hkind : runKind c = 1 := runKind_eq_one.mpr hc
          have hrun : ∀ d ∈ c :: run, isFoldBreak d = true := fun d hd =>
            runKind_eq_one.mp ((of_decide_eq_true (hrun d hd)).trans hkind)
          have hbreak : startsWith isFoldBreak rest = false := by
            simpa only [hkind, runKind_eq_one, Bool.decide_eq_true] using hrest
          have hkept := startsWith_of_hasPair hcs.breakSpace hrun
          exact singles_breaks hcolumn htake hdrop hrun (hfold.startsWith_isWhite hkept hbreak)
            hbreak hnext
        | false =>
          have hkind : runKind c = 2 := runKind_eq_two.mpr ⟨hspace, hc⟩
          have hrun : ∀ d ∈ c :: run, d ≠ ' ' ∧ isFoldBreak d = false := fun d hd =>
            runKind_eq_two.mp ((of_decide_eq_true (hrun d hd)).trans hkind)
          have hwritable : ∀ d ∈ c :: run, isWritable d = true := fun d hd =>
            hcs.writable d (List.mem_append_left rest hd)
          exact singles_words htake hdrop (fun d hd => (hrun d hd).1) (fun d hd => (hrun d hd).2)
            (fun d hd => isWhite_of_isWritable (hwritable d hd) (hrun d hd).1 (hrun d hd).2)
            (fun d hd => isAllowed_of_isWritable (hwritable d hd)) hnext

/-- What single quotes enclose is read back as what becomes of the text. -/
theorem exists_single {column : Nat} (hcolumn : 0 < column) (split : Bool) {text : String}
    (htext : Foldable text.toList) (p : Page) : ∃ w,
    p.Adds (p.gap ++ '\'' :: (w ++ ['\''])) (single column split text p) ∧
      Quotes false w (relined false text.toList) := by
  have hfuel : text.toList.length < text.length + 1 := by
    rw [String.length_toList]
    omega
  have hindent : (p.property "'").atIndent = false := Bool.and_false _
  obtain ⟨w, hw, hquotes, -⟩ := singles hcolumn split (text.length + 1) text.toList htext hfuel true
    (p.property "'") (fun h => absurd (hindent.symm.trans h) Bool.false_ne_true) nofun
  refine ⟨w, ?_, hquotes⟩
  simpa [single] using (p.adds_property "'").trans (hw.trans (adds_mark _ "'" false false))

theorem flatMap_doubledQuote_spaces {cs : List Char} (h : ∀ c ∈ cs, c = ' ') :
    cs.flatMap doubledQuote = cs := by
  induction cs with
  | nil => rfl
  | cons c cs ih =>
    obtain ⟨hc, hcs⟩ := List.forall_mem_cons.mp h
    rw [List.flatMap_cons, ih hcs, hc]
    rfl

theorem singleRuns_key (column fuel : Nat) (first : Bool) {cs : List Char}
    (hcs : ∀ c ∈ cs, isFoldBreak c = false) (hfuel : cs.length < fuel) (p : Page) :
    p.Adds (cs.flatMap doubledQuote) (singleRuns column false fuel first cs p) := by
  induction fuel generalizing cs first p with
  | zero => cases hfuel
  | succ fuel ih =>
    cases cs with
    | nil => exact .refl p
    | cons c cs =>
      obtain ⟨run, rest, htake, hdrop, rfl, hrun, -⟩ :=
        exists_run (p := (runKind · = runKind c)) (c := c) (decide_eq_true rfl) cs
      have hrest : ∀ d ∈ rest, isFoldBreak d = false := fun d hd =>
        hcs d (List.mem_cons_of_mem c (List.mem_append_right run hd))
      have hlength : rest.length < fuel := by
        simp at hfuel
        omega
      have hnext := ih false hrest hlength
      rw [singleRuns_run column false fuel first htake hdrop p, ← List.cons_append,
        List.flatMap_append]
      by_cases hspace : c = ' '
      · subst hspace
        have hspaces : ∀ d ∈ ' ' :: run, d = ' ' := fun d hd =>
          runKind_eq_zero.mp (of_decide_eq_true (hrun d hd))
        have hspaces := flatMap_doubledQuote_spaces hspaces
        rw [if_pos rfl, if_neg (by simp), hspaces]
        exact (p.adds_ofList _).trans (hnext _)
      · rw [if_neg hspace, if_neg (by simp [hcs c List.mem_cons_self])]
        exact (p.adds_ofList _).trans (hnext _)

end Page

end FilterTree.Yaml
