import FilterTree.Proofs.Yaml.Page
import FilterTree.Proofs.Yaml.Single
import FilterTree.Yaml.Scalar

/-! Texts without quotes. They are read back word by word, long lines folded at a space included. -/

namespace FilterTree.Yaml

/-- A word of a plain text: nothing in it ends the text or begins a comment. -/
structure IsWord (word : List Char) : Prop where
  ne_nil : word ≠ []
  solid : ∀ c ∈ word, isWhite c = false
  writable : ∀ c ∈ word, isWritable c = true
  head : word.head? ≠ some '#'
  last : word.getLast? ≠ some ':'

/-- What is written of a plain text, and the text. -/
inductive Woven (column : Nat) : List Char → List Char → Prop
  | word {word : List Char} (hword : IsWord word) : Woven column word word
  | spaces {word w s : List Char} {n : Nat} (hword : IsWord word) (hn : 0 < n)
      (h : Woven column w s) :
      Woven column (word ++ (List.replicate n ' ' ++ w)) (word ++ (List.replicate n ' ' ++ s))
  | fold {word w s : List Char} (hword : IsWord word) (h : Woven column w s) :
      Woven column (word ++ ('\n' :: (List.replicate column ' ' ++ w))) (word ++ (' ' :: s))

theorem IsWord.exists_cons {word : List Char} (h : IsWord word) :
    ∃ c more, word = c :: more ∧ isWhite c = false ∧ c ≠ '#' ∧ c ≠ '\ufeff' := by
  cases word with
  | nil => exact absurd rfl h.ne_nil
  | cons c more =>
    refine ⟨c, more, rfl, h.solid c List.mem_cons_self, fun hc => h.head (congrArg some hc), ?_⟩
    rintro rfl
    exact Bool.false_ne_true (h.writable _ List.mem_cons_self)

theorem Woven.exists_cons {column : Nat} {w s : List Char} (h : Woven column w s) :
    ∃ c more, w = c :: more ∧ isWhite c = false ∧ c ≠ '#' ∧ c ≠ '\ufeff' := by
  cases h with
  | word hword => exact hword.exists_cons
  | spaces hword _ _ =>
    obtain ⟨c, more, rfl, hc⟩ := hword.exists_cons
    exact ⟨c, _, rfl, hc⟩
  | fold hword _ =>
    obtain ⟨c, more, rfl, hc⟩ := hword.exists_cons
    exact ⟨c, _, rfl, hc⟩

def EndsWord (v : List Char) : Prop :=
  startsBlank v = true ∨ ∃ more, v = ':' :: more ∧ startsBlank more = true

namespace Plain

theorem run_of_endsWord {v : List Char} (h : EndsWord v) : run false v = [] := by
  rcases h with h | ⟨more, rfl, h⟩
  · cases v with
    | nil => rfl
    | cons c v =>
      rw [run]
      exact if_pos h
  · simp [run, isBlank, isBreak, h]

theorem run_append {word v : List Char} (hsolid : ∀ c ∈ word, isWhite c = false)
    (hlast : word.getLast? ≠ some ':') (hv : EndsWord v) : run false (word ++ v) = word := by
  induction word with
  | nil => exact run_of_endsWord hv
  | cons c word ih =>
    obtain ⟨hc, hsolid⟩ := List.forall_mem_cons.mp hsolid
    have hcolon : ¬ (c = ':' && (startsBlank (word ++ v) ||
        (false && startsWith (",[]\x7b\x7d".toList.contains ·) (word ++ v)))) = true := by
      cases word with
      | nil =>
        have hne : c ≠ ':' := fun hcolon => hlast (congrArg some hcolon)
        simp [hne]
      | cons d word =>
        have hd : startsBlank (d :: (word ++ v)) = false := hsolid d List.mem_cons_self
        simp [hd]
    have hmore : word.getLast? ≠ some ':' := by
      cases word with
      | nil => nofun
      | cons d word => rwa [List.getLast?_cons_cons] at hlast
    rw [List.cons_append, run, if_neg (Bool.not_eq_true _ ▸ hc), if_neg hcolon,
      Bool.false_and, if_neg Bool.false_ne_true, ih hsolid hmore]

theorem blanks_of_spaces {c : Cursor} {n : Nat} {v : List Char}
    (h : c.rest = List.replicate n ' ' ++ v) (hv : startsWith isWhite v = false) :
    blanks c = (List.replicate n ' ', c.advance n, false) := by
  have hnone := Cursor.takeBreak?_advance_spaces h hv
  unfold blanks
  rw [Cursor.span_spaces (p := (· = ' ')) rfl h (startsWith_space hv)]
  simp [hnone]

theorem blanks_of_line {c : Cursor} {n : Nat} {v : List Char}
    (h : c.rest = '\n' :: (List.replicate n ' ' ++ v)) (hv : startsWith isWhite v = false)
    (hmarker : n = 0 → atMarker v = false) :
    blanks c = ([' '], c.advance (n + 1), true) := by
  have hspan : c.span (· = ' ') = ([], c) := Cursor.span_of_append (w := []) h (by simp) rfl
  have hnext := Cursor.rest_next_of_cons h
  have hline : atMarker c.next.rest = false := by
    rw [hnext]
    cases n with
    | zero => exact hmarker rfl
    | succ n => exact Quoted.atMarker_spaces (Nat.succ_pos n) v
  have hskip : c.next.skipSpaces = c.next.advance n :=
    Cursor.skip_spaces (p := (· = ' ')) rfl hnext (startsWith_space hv)
  have hnone := Cursor.takeBreak?_advance_spaces hnext hv
  unfold blanks
  rw [hspan]
  simp only [Cursor.takeBreak?_of_isFoldBreak (b := '\n') rfl h, blankLines?, hline, hskip, hnone]
  rfl

theorem run_of_word {word v : List Char} (hword : IsWord word) (hv : EndsWord v) {c : Cursor}
    (hc : c.rest = word ++ v) : c.rest.head? ≠ some '#' ∧ run false c.rest = word := by
  obtain ⟨ch, more, hcons, -, hcomment, -⟩ := hword.exists_cons
  refine ⟨?_, by rw [hc, run_append hword.solid hword.last hv]⟩
  rw [hc, hcons]
  exact fun h => hcomment (Option.some.inj h)

theorem body_word {word v blanks : List Char} (hword : IsWord word) (hv : EndsWord v) {least : Int}
    {c d : Cursor} (hc : c.rest = word ++ v) {e : Bool}
    (hblanks : Plain.blanks (c.advance word.length) = (blanks, d, e)) (hne : blanks ≠ [])
    (hd : d.rest.head? ≠ some '#') (hleast : least ≤ d.column) (fuel : Nat)
    (done spaces : List Char) (ended : Bool) :
    body false least (fuel + 1) done spaces ended c =
      body false least fuel (done ++ spaces ++ word) blanks e d := by
  obtain ⟨hhead, hrun⟩ := run_of_word hword hv hc
  rw [body]
  simp [hrun, hhead, hword.ne_nil, hblanks, hne, hd, Int.not_lt.mpr hleast]

theorem body_lastWord {word v blanks : List Char} (hword : IsWord word) (hv : EndsWord v)
    {least : Int} {c d : Cursor} (hc : c.rest = word ++ v) {e : Bool}
    (hblanks : Plain.blanks (c.advance word.length) = (blanks, d, e))
    (hstop : blanks = [] ∨ d.column < least) (fuel : Nat) (done spaces : List Char)
    (ended : Bool) :
    body false least (fuel + 1) done spaces ended c =
      (String.ofList (done ++ spaces ++ word), d, e) := by
  obtain ⟨hhead, hrun⟩ := run_of_word hword hv hc
  rw [body]
  simp only [hrun, hblanks]
  rw [if_neg (by simp [hhead, hword.ne_nil]), if_pos]
  rcases hstop with h | h <;> simp [h]

theorem body_spaces {word more : List Char} {ch : Char} {n : Nat} (hword : IsWord word) (hn : 0 < n)
    (hwhite : isWhite ch = false) (hcomment : ch ≠ '#') {least : Int} {c : Cursor}
    (hc : c.rest = word ++ (List.replicate n ' ' ++ ch :: more)) (hleast : least ≤ c.column + 1)
    (fuel : Nat) (done spaces : List Char) (ended : Bool) :
    least ≤ (c.advance (word.length + n)).column ∧
      body false least (fuel + 1) done spaces ended c =
        body false least fuel (done ++ spaces ++ word) (List.replicate n ' ') false
          (c.advance (word.length + n)) := by
  have hend : EndsWord (List.replicate n ' ' ++ ch :: more) := by
    obtain ⟨n, rfl⟩ := Nat.exists_eq_add_one_of_ne_zero (Nat.ne_of_gt hn)
    exact .inl rfl
  have hspaces := Cursor.rest_advance_of_append hc
  have hrun := blanks_of_spaces hspaces hwhite
  have hafter := Cursor.rest_advance_spaces hspaces
  have hright := Cursor.column_advance_spaces hspaces
  obtain ⟨-, -, hstart⟩ := Cursor.advance_of_not_isBreak hc fun d hd =>
    (Bool.or_eq_false_iff.mp (hword.solid d hd)).2
  rw [Cursor.advance_add] at hrun hafter hright
  have hcolumn : least ≤ (c.advance (word.length + n)).column := by omega
  refine ⟨hcolumn, body_word hword hend hc hrun (by simp; omega) ?_ hcolumn fuel done spaces ended⟩
  rw [hafter]
  exact fun h => hcomment (Option.some.inj h)

theorem body_fold {word more : List Char} {ch : Char} {column : Nat} (hword : IsWord word)
    (hpos : 0 < column) (hwhite : isWhite ch = false) (hcomment : ch ≠ '#') {least : Int}
    (hcolumn : least ≤ column) {c : Cursor}
    (hc : c.rest = word ++ '\n' :: (List.replicate column ' ' ++ ch :: more)) (fuel : Nat)
    (done spaces : List Char) (ended : Bool) :
    least ≤ (c.advance (word.length + (column + 1))).column ∧
      body false least (fuel + 1) done spaces ended c =
        body false least fuel (done ++ spaces ++ word) [' '] true
          (c.advance (word.length + (column + 1))) := by
  have hline := Cursor.rest_advance_of_append hc
  have hrun := blanks_of_line hline hwhite (by omega)
  have hright := Cursor.column_advance_line hline
  have hafter : (c.advance (word.length + (column + 1))).rest = ch :: more := by
    rw [← Cursor.advance_add, Cursor.rest_advance, hline]
    simp
  rw [Cursor.advance_add] at hrun hright
  have hcolumn' : least ≤ (c.advance (word.length + (column + 1))).column := by omega
  refine ⟨hcolumn', body_word hword (.inl rfl) hc hrun (List.cons_ne_nil _ _) ?_ hcolumn' fuel done
    spaces ended⟩
  rw [hafter]
  exact fun h => hcomment (Option.some.inj h)

end Plain

theorem Woven.body {column : Nat} (hpos : 0 < column) {w s : List Char} (h : Woven column w s)
    {least : Int} (hcolumn : least ≤ column) {v blanks : List Char} (hv : EndsWord v) {c d : Cursor}
    {e : Bool} (hc : c.rest = w ++ v)
    (hblanks : Plain.blanks (c.advance w.length) = (blanks, d, e))
    (hstop : blanks = [] ∨ d.column < least) (hleast : least ≤ c.column + 1) (fuel : Nat)
    (hfuel : w.length < fuel) (done spaces : List Char) (ended : Bool) :
    Plain.body false least fuel done spaces ended c =
      (String.ofList (done ++ spaces ++ s), d, e) := by
  -- Over the pieces of the text: one round of the reader takes a word and the gap after it, so what
  -- it has read, the gap it still holds and its fuel are all general.
  induction h generalizing c fuel done spaces ended with
  | word hword =>
    obtain ⟨fuel, rfl⟩ := Nat.exists_eq_add_one_of_ne_zero (Nat.ne_zero_of_lt hfuel)
    exact Plain.body_lastWord hword hv hc hblanks hstop fuel done spaces ended
  | @spaces word w s n hword hn hwoven ih =>
    obtain ⟨fuel, rfl⟩ := Nat.exists_eq_add_one_of_ne_zero (Nat.ne_zero_of_lt hfuel)
    obtain ⟨ch, more, hcons, hwhite, hcomment, -⟩ := hwoven.exists_cons
    have hlength : (word ++ (List.replicate n ' ' ++ w)).length = word.length + n + w.length := by
      simp [Nat.add_assoc]
    have hc' : c.rest = word ++ (List.replicate n ' ' ++ (w ++ v)) := by
      rw [hc]
      simp
    have hrest : (c.advance (word.length + n)).rest = w ++ v := by
      rw [← Cursor.advance_add]
      exact Cursor.rest_advance_spaces (Cursor.rest_advance_of_append hc')
    rw [hcons] at hc'
    obtain ⟨hright, hbody⟩ :=
      Plain.body_spaces hword hn hwhite hcomment hc' hleast fuel done spaces ended
    rw [hlength] at hfuel hblanks
    rw [← Cursor.advance_add] at hblanks
    rw [hbody, ih hrest hblanks (by omega) fuel (by omega)]
    simp
  | @fold word w s hword hwoven ih =>
    obtain ⟨fuel, rfl⟩ := Nat.exists_eq_add_one_of_ne_zero (Nat.ne_zero_of_lt hfuel)
    obtain ⟨ch, more, hcons, hwhite, hcomment, -⟩ := hwoven.exists_cons
    have hlength : (word ++ '\n' :: (List.replicate column ' ' ++ w)).length =
        word.length + (column + 1) + w.length := by
      simp
      omega
    have hc' : c.rest = word ++ '\n' :: (List.replicate column ' ' ++ (w ++ v)) := by
      rw [hc]
      simp
    have hrest : (c.advance (word.length + (column + 1))).rest = w ++ v := by
      rw [← Cursor.advance_add, Cursor.rest_advance, Cursor.rest_advance_of_append hc']
      simp
    rw [hcons] at hc'
    obtain ⟨hright, hbody⟩ :=
      Plain.body_fold hword hpos hwhite hcomment hcolumn hc' fuel done spaces ended
    rw [hlength] at hfuel hblanks
    rw [← Cursor.advance_add] at hblanks
    rw [hbody, ih hrest hblanks (by omega) fuel (by omega)]
    simp

namespace Woven
variable {column : Nat} {w s u : List Char} {least : Int} {c : Cursor}

theorem read_line (h : Woven column w s) (hpos : 0 < column) (hcolumn : least ≤ column) {n : Nat}
    (hc : c.rest = w ++ '\n' :: (List.replicate n ' ' ++ u)) (hu : startsWith isWhite u = false)
    (hmarker : n = 0 → atMarker u = false) (hn : n < least) (hleast : least ≤ c.column + 1) :
    Plain.read false least c = (String.ofList s, c.advance (w.length + (n + 1)), true) := by
  have hline := Cursor.rest_advance_of_append hc
  have hblanks := Plain.blanks_of_line hline hu hmarker
  have hright := Cursor.column_advance_line hline
  unfold Plain.read
  rw [h.body hpos hcolumn (.inl rfl) hc hblanks (.inr (by rw [hright]; exact hn)) hleast _
    (by rw [hc, List.length_append]; omega), Cursor.advance_add]
  rfl

theorem read_key (h : Woven column w s) (hpos : 0 < column) (hcolumn : least ≤ column)
    (hc : c.rest = w ++ ':' :: u) (hu : startsBlank u = true) (hleast : least ≤ c.column + 1) :
    Plain.read false least c = (String.ofList s, c.advance w.length, false) := by
  have hcolon := Cursor.rest_advance_of_append hc
  have hblanks := Plain.blanks_of_spaces (n := 0) hcolon rfl
  unfold Plain.read
  rw [h.body hpos hcolumn (.inr ⟨u, rfl, hu⟩) hc hblanks (.inl rfl) hleast _
    (by rw [hc, List.length_append]; omega)]
  rfl

end Woven

/-! ### Writing -/

/-- A text that can stand without quotes. Its marks are those it has after a space. -/
structure Plainable (cs : List Char) : Prop where
  ne_nil : cs ≠ []
  solid : ∀ c ∈ cs, c = ' ' ∨ isWhite c = false
  writable : ∀ c ∈ cs, isWritable c = true
  head : cs.head? ≠ some ' '
  last : cs.getLast? ≠ some ' '
  marks : Features.hasMark (' ' :: cs) = false

namespace Plainable

theorem hasMark_append {v w : List Char} (h : Features.hasMark (v ++ w) = false) :
    Features.hasMark w = false := by
  induction v with
  | nil => exact h
  | cons c v ih => exact ih (Bool.or_eq_false_iff.mp h).2

theorem hasMark_lastColon {cs rest : List Char} (hlast : cs.getLast? = some ':')
    (hrest : startsBlank rest = true) (c : Char) : Features.hasMark (c :: (cs ++ rest)) = true := by
  induction cs generalizing c with
  | nil => cases hlast
  | cons d cs ih =>
    cases cs with
    | nil =>
      have hd : d = ':' := Option.some.inj hlast
      simp [Features.hasMark, hd, hrest]
    | cons e cs =>
      rw [List.getLast?_cons_cons] at hlast
      have hmore := ih hlast d
      rw [List.cons_append, Features.hasMark, hmore, Bool.or_true]

theorem isWord {c : Char} {run rest : List Char} (h : Plainable (c :: (run ++ rest)))
    (hrun : ∀ d ∈ c :: run, d ≠ ' ') (hrest : startsBlank rest = true) : IsWord (c :: run) where
  ne_nil := List.cons_ne_nil c run
  solid d hd := (h.solid d (List.mem_append_left rest hd)).resolve_left (hrun d hd)
  writable d hd := h.writable d (List.mem_append_left rest hd)
  head hhash := by
    cases hhash
    have hmarks := h.marks
    simp [Features.hasMark, isBlank] at hmarks
  last hlast := by
    have hmarks := hasMark_lastColon hlast hrest ' '
    exact Bool.false_ne_true (h.marks.symm.trans hmarks)

theorem of_spaces {word more : List Char} {n : Nat} (hn : 0 < n)
    (h : Plainable (word ++ (List.replicate n ' ' ++ more))) (hmore : more.head? ≠ some ' ') :
    Plainable more := by
  obtain ⟨n, rfl⟩ := Nat.exists_eq_add_one_of_ne_zero (Nat.ne_of_gt hn)
  have hlast := h.last
  have hmarks := h.marks
  rw [List.replicate_succ', ← List.append_assoc, ← List.append_assoc] at hlast hmarks
  have hne : more ≠ [] := by
    rintro rfl
    simp at hlast
  have hmem : ∀ c ∈ more, c ∈ word ++ (List.replicate (n + 1) ' ' ++ more) := fun c hc =>
    List.mem_append_right _ (List.mem_append_right _ hc)
  refine ⟨hne, fun c hc => h.solid c (hmem c hc), fun c hc => h.writable c (hmem c hc), hmore,
    ?_, ?_⟩
  · rw [List.getLast?_append] at hlast
    intro hspace
    rw [hspace] at hlast
    exact hlast rfl
  · rw [List.append_assoc, ← List.cons_append] at hmarks
    exact hasMark_append hmarks

end Plainable

namespace Page

theorem plainRuns_spaces (column : Nat) (split : Bool) (fuel : Nat) {cs run rest : List Char}
    (htake : (' ' :: cs).takeWhile (· = ' ') = ' ' :: run)
    (hdrop : (' ' :: cs).drop (' ' :: run).length = rest) (p : Page) :
    plainRuns column split (fuel + 1) (' ' :: cs) p =
      plainRuns column split fuel rest
        (if (' ' :: run).length = 1 ∧ p.isTooLong ∧ split then p.foldTo column
        else p.write (String.ofList (' ' :: run))) := by
  subst hdrop
  rw [← htake, plainRuns]
  simp only [true_and, if_true]

theorem plainRuns_word (column : Nat) (split : Bool) (fuel : Nat) {c : Char} (hc : c ≠ ' ')
    {cs run rest : List Char} (htake : (c :: cs).takeWhile (· ≠ ' ') = c :: run)
    (hdrop : (c :: cs).drop (c :: run).length = rest) (p : Page) :
    plainRuns column split (fuel + 1) (c :: cs) p =
      plainRuns column split fuel rest (p.write (String.ofList (c :: run))) := by
  subst hdrop
  rw [← htake, plainRuns]
  simp only [hc, false_and, if_false]

def Weaves (column : Nat) (split : Bool) (fuel : Nat) (cs : List Char) : Prop :=
  ∀ p : Page, p.atIndent = false → ∃ w,
    p.Adds w (plainRuns column split fuel cs p) ∧ Woven column w cs ∧ (split = false → w = cs) ∧
      (plainRuns column split fuel cs p).atIndent = false

theorem weaves_word {column : Nat} {split : Bool} {fuel : Nat} {c : Char} (hc : c ≠ ' ')
    {run : List Char} (htake : (c :: run).takeWhile (· ≠ ' ') = c :: run)
    (hword : IsWord (c :: run)) : Weaves column split (fuel + 1) (c :: run) := by
  intro p hp
  have hdrop : (c :: run).drop (c :: run).length = [] := List.drop_length
  have hend : plainRuns column split fuel [] (p.write (String.ofList (c :: run))) =
      p.write (String.ofList (c :: run)) := by
    cases fuel <;> rfl
  rw [plainRuns_word column split fuel hc htake hdrop p, hend]
  exact ⟨c :: run, p.adds_ofList _, .word hword, fun _ => rfl, hp⟩

theorem weaves_words {column : Nat} {split : Bool} {fuel : Nat} {c : Char} (hc : c ≠ ' ')
    {run spaces more : List Char}
    (htake : (c :: (run ++ ' ' :: (spaces ++ more))).takeWhile (· ≠ ' ') = c :: run)
    (htake' : (' ' :: (spaces ++ more)).takeWhile (· = ' ') = ' ' :: spaces)
    (hspaces : ∀ d ∈ ' ' :: spaces, d = ' ') (hword : IsWord (c :: run))
    (h : Weaves column split fuel more) :
    Weaves column split (fuel + 2) (c :: (run ++ ' ' :: (spaces ++ more))) := by
  intro p hp
  have hrun : ' ' :: spaces = List.replicate (spaces.length + 1) ' ' :=
    List.eq_replicate_of_mem hspaces
  have hdrop : (c :: (run ++ ' ' :: (spaces ++ more))).drop (c :: run).length =
      ' ' :: (spaces ++ more) := by
    rw [← List.cons_append, List.drop_left]
  have hdrop' : (' ' :: (spaces ++ more)).drop (' ' :: spaces).length = more := by
    rw [← List.cons_append, List.drop_left]
  rw [plainRuns_word column split (fuel + 1) hc htake hdrop p,
    plainRuns_spaces column split fuel htake' hdrop']
  split
  · next hfold =>
    obtain ⟨hone, -, hsplit⟩ := hfold
    have hnil : spaces = [] := List.length_eq_zero_iff.mp (Nat.succ.inj hone)
    subst hnil
    obtain ⟨hline, -, hindent⟩ := foldTo_line (p := p.write (String.ofList (c :: run))) hp column
    obtain ⟨w, hw, hwoven, -, hlast⟩ := h _ hindent
    refine ⟨_, (p.adds_ofList (c :: run)).trans (hline.trans hw), .fold hword hwoven, ?_, hlast⟩
    exact fun hkey => absurd (hkey.symm.trans hsplit) Bool.false_ne_true
  · obtain ⟨w, hw, hwoven, hkey, hlast⟩ :=
      h ((p.write (String.ofList (c :: run))).write (String.ofList (' ' :: spaces))) hp
    have hadds := (p.adds_ofList (c :: run)).trans
      (((p.write (String.ofList (c :: run))).adds_ofList (' ' :: spaces)).trans hw)
    refine ⟨_, hadds, ?_, fun hsplit => ?_, hlast⟩
    · have hwords := Woven.spaces hword (Nat.succ_pos spaces.length) hwoven
      rw [← hrun] at hwords
      exact hwords
    · rw [hkey hsplit]
      rfl

theorem weaves (column : Nat) (split : Bool) (fuel : Nat) (cs : List Char) (h : Plainable cs)
    (hfuel : cs.length < fuel) : Weaves column split fuel cs := by
  -- A word and the spaces after it are two rounds of the writer, so that the induction is a strong one.
  induction fuel using Nat.strongRecOn generalizing cs with
  | ind fuel ih =>
    cases cs with
    | nil => exact absurd rfl h.ne_nil
    | cons c cs =>
      have hc : c ≠ ' ' := fun hc => h.head (congrArg some hc)
      obtain ⟨run, rest, htake, -, rfl, hrun, hrest⟩ :=
        exists_run (p := (· ≠ ' ')) (decide_eq_true hc) cs
      have hrun : ∀ d ∈ c :: run, d ≠ ' ' := fun d hd => of_decide_eq_true (hrun d hd)
      cases rest with
      | nil =>
        rw [List.append_nil] at h htake hfuel ⊢
        obtain ⟨fuel, rfl⟩ := Nat.exists_eq_add_one_of_ne_zero (Nat.ne_zero_of_lt hfuel)
        refine weaves_word hc htake (Plainable.isWord ?_ hrun (rfl : startsBlank [] = true))
        rwa [List.append_nil]
      | cons d rest =>
        have hd : d = ' ' := by simpa [startsWith] using hrest
        subst hd
        obtain ⟨spaces, more, htake', -, rfl, hspaces, hmore⟩ :=
          exists_run (p := (· = ' ')) (decide_eq_true rfl) rest
        have hspaces : ∀ d ∈ ' ' :: spaces, d = ' ' := fun d hd => of_decide_eq_true (hspaces d hd)
        have hrun' : ' ' :: spaces = List.replicate (spaces.length + 1) ' ' :=
          List.eq_replicate_of_mem hspaces
        have hmore' : more.head? ≠ some ' ' := by
          cases more with
          | nil => simp
          | cons e more => simpa [startsWith] using hmore
        have hplain : Plainable more := by
          refine Plainable.of_spaces (Nat.succ_pos spaces.length)
            (?_ : Plainable (c :: run ++ _)) hmore'
          rw [← hrun']
          exact h
        simp only [List.length_cons, List.length_append] at hfuel
        obtain ⟨fuel, rfl⟩ : ∃ n, fuel = n + 2 := ⟨fuel - 2, by omega⟩
        exact weaves_words hc htake htake' hspaces (h.isWord hrun rfl)
          (ih fuel (by omega) more hplain (by omega))

/-- A text without quotes is read back as it is. -/
theorem exists_plain (column : Nat) (split : Bool) {text : String} (h : Plainable text.toList)
    (p : Page) : ∃ w, p.Adds (p.gap ++ w) (plain column split text p) ∧
      Woven column w text.toList ∧ (split = false → w = text.toList) ∧
      (plain column split text p).atIndent = false := by
  have hempty : text.isEmpty = false := by
    refine Bool.eq_false_iff.mpr fun hempty => h.ne_nil ?_
    simpa using hempty
  have hfuel : text.toList.length < text.length + 1 := by
    rw [String.length_toList]
    omega
  obtain ⟨w, hw, hwoven, hkey, hindent⟩ := weaves column split (text.length + 1) text.toList h hfuel
    { p.spaced with afterBlank := false, atIndent := false } rfl
  unfold plain
  rw [hempty]
  exact ⟨w, p.adds_spaced.trans hw, hwoven, hkey, hindent⟩

end Page

end FilterTree.Yaml
