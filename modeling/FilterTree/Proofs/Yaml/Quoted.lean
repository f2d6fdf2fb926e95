import FilterTree.Proofs.Yaml.Place
import FilterTree.Yaml.Page
import FilterTree.Yaml.Scalar

/-! Texts in quotes. What is written between the quotes is read back character by character, breaks and
escapes included. The one exception is a next-line character in single quotes, which counts as a line
feed there. -/

namespace FilterTree.Yaml

def quoteMark (double : Bool) : Char :=
  if double then '"' else '\''

/-- What stands between quotes, and the characters that it stands for. -/
inductive Quotes (double : Bool) : List Char → List Char → Prop
  | nil : Quotes double [] []
  | blanks {n : Nat} {w s : List Char} (hn : 0 < n) (hw : startsWith isWhite w = false)
      (h : Quotes double w s) :
      Quotes double (List.replicate n ' ' ++ w) (List.replicate n ' ' ++ s)
  | breaks {b : Char} {bs : List Char} {n : Nat} {w s : List Char}
      (hbs : ∀ ch ∈ b :: bs, isFoldBreak ch = true) (hn : 0 < n)
      (hw : startsWith isWhite w = false) (h : Quotes double w s) :
      Quotes double (b :: (bs ++ (List.replicate n ' ' ++ w)))
        (fold (asBreak b) (bs.map asBreak) ++ s)
  | char {ch : Char} {w s : List Char} (hallowed : isAllowed ch = true) (hch : isWhite ch = false)
      (hquote : ch ≠ quoteMark double) (hslash : double = true → ch ≠ '\\')
      (h : Quotes double w s) :
      Quotes double (ch :: w) (ch :: s)
  | quote {w s : List Char} (hdouble : double = false) (h : Quotes double w s) :
      Quotes double ('\'' :: '\'' :: w) ('\'' :: s)
  | short {e ch : Char} {w s : List Char} (hdouble : double = true)
      (he : Quoted.shortEscape? e = some ch) (h : Quotes double w s) :
      Quotes double ('\\' :: e :: w) (ch :: s)
  | code {e ch : Char} {ds w s : List Char} {code : Nat} (hdouble : double = true)
      (hshort : Quoted.shortEscape? e = none) (he : Quoted.codeLength? e = some ds.length)
      (hds : hexNumber? ds.length ds = some code) (hcode : charOfCode code = .ok ch)
      (h : Quotes double w s) :
      Quotes double ('\\' :: e :: (ds ++ w)) (ch :: s)
  | line {n : Nat} {w s : List Char} (hdouble : double = true) (hn : 0 < n)
      (hw : startsWith isWhite w = false) (h : Quotes double w s) :
      Quotes double ('\\' :: '\n' :: (List.replicate n ' ' ++ w)) s

/-! ### Characters -/

theorem isAllowed_of_isFoldBreak {b : Char} (h : isFoldBreak b = true) : isAllowed b = true := by
  simp only [isFoldBreak, Bool.or_eq_true, decide_eq_true_eq] at h
  rcases h with ((rfl | rfl) | rfl) | rfl <;> rfl

theorem isAllowed_of_hexDigit? {c : Char} (h : hexDigit? c ≠ none) : isAllowed c = true := by
  have hletter {a b : Char} (hc : a ≤ c ∧ c ≤ b) : a.toNat ≤ c.toNat ∧ c.toNat ≤ b.toNat :=
    ⟨UInt32.le_iff_toNat_le.mp hc.1, UInt32.le_iff_toNat_le.mp hc.2⟩
  have hrange : 0x20 ≤ c.toNat ∧ c.toNat ≤ 0x7e := by
    unfold hexDigit? at h
    split at h
    · next hdigit =>
      simp only [Char.isDigit, Bool.and_eq_true, decide_eq_true_eq] at hdigit
      have := hletter (a := '0') (b := '9') hdigit
      simp at this
      omega
    split at h
    · next hlower =>
      have := hletter hlower
      simp at this
      omega
    split at h
    · next hupper =>
      have := hletter hupper
      simp at this
      omega
    · exact absurd rfl h
  simp only [isAllowed, Bool.or_eq_true, Bool.and_eq_true, decide_eq_true_eq]
  omega

theorem forall_of_hexNumber? {P : Char → Prop} (hP : ∀ c, hexDigit? c ≠ none → P c)
    {ds : List Char} {n : Nat} (h : hexNumber? ds.length ds = some n) : ∀ c ∈ ds, P c := by
  unfold hexNumber? at h
  rw [List.take_length, if_pos rfl] at h
  obtain ⟨values, hvalues, -⟩ := Option.map_eq_some_iff.mp h
  clear h
  induction ds generalizing values with
  | nil => nofun
  | cons c cs ih =>
    rw [List.mapM_cons] at hvalues
    cases hc : hexDigit? c with
    | none =>
      rw [hc] at hvalues
      cases hvalues
    | some d =>
      cases hcs : cs.mapM hexDigit? with
      | none =>
        rw [hc, hcs] at hvalues
        cases hvalues
      | some more => exact List.forall_mem_cons.mpr ⟨hP c (by simp [hc]), ih more hcs⟩

namespace Quoted

/-! ### Reading -/

theorem atMarker_of_not {ch : Char} {v : List Char} (hdash : ch ≠ '-') (hdot : ch ≠ '.') :
    atMarker (ch :: v) = false := by
  unfold atMarker
  split
  · next a b c rest h =>
    cases h
    simp [hdash, hdot]
  · rfl

theorem atMarker_spaces {n : Nat} (hn : 0 < n) (v : List Char) :
    atMarker (List.replicate n ' ' ++ v) = false := by
  obtain ⟨n, rfl⟩ := Nat.exists_eq_add_one_of_ne_zero (Nat.ne_of_gt hn)
  exact atMarker_of_not (by decide) (by decide)

theorem blankLines_of_breaks {bs : List Char} (hbs : ∀ ch ∈ bs, isFoldBreak ch = true) {n : Nat}
    (hn : 0 < n) {v : List Char} (hv : startsWith isWhite v = false) (fuel : Nat) (c : Cursor)
    (h : c.rest = bs ++ (List.replicate n ' ' ++ v)) (hfuel : bs.length < fuel) :
    blankLines fuel c = .ok (bs.map asBreak, c.advance (bs.length + n)) := by
  induction bs generalizing c fuel with
  | nil =>
    obtain ⟨fuel, rfl⟩ := Nat.exists_eq_add_one_of_ne_zero (Nat.ne_of_gt hfuel)
    have hrest : c.rest = List.replicate n ' ' ++ v := h
    have hskip : c.skip isBlank = c.advance n :=
      Cursor.skip_spaces rfl hrest (startsWith_isBlank hv)
    have hnone := Cursor.takeBreak?_advance_spaces hrest hv
    unfold blankLines
    rw [if_neg (by rw [hrest, atMarker_spaces hn]; exact Bool.false_ne_true), hskip]
    simp [hnone]
  | cons b bs ih =>
    obtain ⟨fuel, rfl⟩ := Nat.exists_eq_add_one_of_ne_zero (Nat.ne_zero_of_lt hfuel)
    have hb := hbs b List.mem_cons_self
    have hbreak := isBreak_of_isFoldBreak hb
    have hrest : c.rest = b :: (bs ++ (List.replicate n ' ' ++ v)) := h
    have hmarker : atMarker c.rest = false := by
      rw [hrest]
      refine atMarker_of_not ?_ ?_ <;> rintro rfl <;> cases hbreak
    have hskip : c.skip isBlank = c :=
      Cursor.skip_of_append (w := []) hrest (by simp) (isBlank_of_isBreak hbreak)
    unfold blankLines
    rw [if_neg (by rw [hmarker]; exact Bool.false_ne_true), hskip]
    simp only [Cursor.takeBreak?_of_isFoldBreak hb hrest]
    rw [ih (fun ch hch => hbs ch (List.mem_cons_of_mem b hch)) fuel c.next
      (Cursor.rest_next_of_cons hrest) (Nat.lt_of_succ_lt_succ hfuel)]
    have hlength : (b :: bs).length + n = (bs.length + n) + 1 := by
      rw [List.length_cons]
      omega
    rw [hlength]
    rfl

theorem blanks_of_spaces {c : Cursor} {n : Nat} {v : List Char}
    (h : c.rest = List.replicate n ' ' ++ v) (hv : startsWith isWhite v = false) :
    blanks c = .ok (List.replicate n ' ', c.advance n) := by
  have hnone := Cursor.takeBreak?_advance_spaces h hv
  unfold blanks
  rw [Cursor.span_spaces rfl h (startsWith_isBlank hv)]
  simp [hnone]

theorem blanks_of_breaks {b : Char} {bs : List Char} (hbs : ∀ ch ∈ b :: bs, isFoldBreak ch = true)
    {n : Nat} (hn : 0 < n) {v : List Char} (hv : startsWith isWhite v = false) {c : Cursor}
    (h : c.rest = b :: (bs ++ (List.replicate n ' ' ++ v))) :
    blanks c = .ok (fold (asBreak b) (bs.map asBreak), c.advance (bs.length + n + 1)) := by
  have hb := hbs b List.mem_cons_self
  have hspan : c.span isBlank = ([], c) :=
    Cursor.span_of_append (w := []) h (by simp) (isBlank_of_isBreak (isBreak_of_isFoldBreak hb))
  have hnext := Cursor.rest_next_of_cons h
  have hlines := blankLines_of_breaks (fun ch hch => hbs ch (List.mem_cons_of_mem b hch)) hn hv
    (c.next.rest.length + 1) c.next hnext (by rw [hnext, List.length_append]; omega)
  unfold blanks
  rw [hspan]
  simp only [Cursor.takeBreak?_of_isFoldBreak hb h, hlines]
  rfl

theorem escape_of_short {c : Cursor} {e ch : Char} {v : List Char} (h : c.rest = e :: v)
    (he : shortEscape? e = some ch) : escape c = .ok ([ch], c.advance 1) := by
  unfold escape
  rw [h]
  simp only [he]
  rfl

theorem hexNumber?_append {ds : List Char} {n : Nat} (h : hexNumber? ds.length ds = some n)
    (v : List Char) : hexNumber? ds.length (ds ++ v) = some n := by
  unfold hexNumber? at h ⊢
  rw [List.take_left]
  rwa [List.take_length] at h

theorem escape_of_code {c : Cursor} {e ch : Char} {ds v : List Char} {n : Nat}
    (h : c.rest = e :: (ds ++ v)) (hshort : shortEscape? e = none)
    (he : codeLength? e = some ds.length) (hds : hexNumber? ds.length ds = some n)
    (hn : charOfCode n = .ok ch) : escape c = .ok ([ch], c.advance (ds.length + 1)) := by
  unfold escape
  rw [h]
  simp only [hshort, he, hexNumber?_append hds, hn]
  rfl

theorem escape_of_lineFeed {c : Cursor} {n : Nat} {v : List Char} (hn : 0 < n)
    (hv : startsWith isWhite v = false) (h : c.rest = '\n' :: (List.replicate n ' ' ++ v)) :
    escape c = .ok ([], c.advance (n + 1)) := by
  have hnext := Cursor.rest_next_of_cons h
  have hlines := blankLines_of_breaks (List.forall_mem_nil _) hn hv (c.next.rest.length + 1) c.next
    hnext (by simp)
  unfold escape
  rw [h]
  have hbreak := Cursor.takeBreak?_of_isFoldBreak (b := '\n') rfl h
  have hshort : shortEscape? '\n' = none := rfl
  have hcode : codeLength? '\n' = none := rfl
  simp only [hshort, hcode, hbreak, hlines, List.length_nil, Nat.zero_add]
  rfl

end Quoted

namespace Quotes

theorem space {double : Bool} {w s : List Char} (h : Quotes double w s)
    (hw : startsWith isBreak w = false) : Quotes double (' ' :: w) (' ' :: s) := by
  by_cases hwhite : startsWith isWhite w = false
  · exact .blanks (n := 1) Nat.one_pos hwhite h
  · cases h with
    | nil => exact absurd rfl hwhite
    | blanks hn hkept h => exact .blanks (Nat.succ_pos _) hkept h
    | breaks hbs _ _ _ =>
      have hb := isBreak_of_isFoldBreak (hbs _ List.mem_cons_self)
      exact absurd (hb.symm.trans hw) Bool.true_eq_false.mp
    | char _ hch _ _ _ => exact absurd hch hwhite
    | quote => exact absurd rfl hwhite
    | short => exact absurd rfl hwhite
    | code => exact absurd rfl hwhite
    | line => exact absurd rfl hwhite

theorem isAllowed {double : Bool} {w s : List Char} (h : Quotes double w s) :
    ∀ c ∈ w, isAllowed c = true := by
  induction h with
  | nil => exact nofun
  | blanks _ _ _ ih => exact isAllowed_spaces _ ih
  | breaks hbs _ _ _ ih =>
    rw [← List.cons_append]
    exact List.forall_mem_append.mpr
      ⟨fun c hc => isAllowed_of_isFoldBreak (hbs c hc), isAllowed_spaces _ ih⟩
  | char hallowed _ _ _ _ ih => exact List.forall_mem_cons.mpr ⟨hallowed, ih⟩
  | quote _ _ ih => exact List.forall_mem_cons.mpr ⟨rfl, List.forall_mem_cons.mpr ⟨rfl, ih⟩⟩
  | short _ he _ ih =>
    refine List.forall_mem_cons.mpr ⟨rfl, List.forall_mem_cons.mpr ⟨?_, ih⟩⟩
    unfold Quoted.shortEscape? at he
    split at he <;> first | rfl | cases he
  | code _ _ he hds _ _ ih =>
    have hcode := forall_of_hexNumber? (fun c => isAllowed_of_hexDigit?) hds
    refine List.forall_mem_cons.mpr ⟨rfl, List.forall_mem_cons.mpr
      ⟨?_, List.forall_mem_append.mpr ⟨hcode, ih⟩⟩⟩
    unfold Quoted.codeLength? at he
    split at he <;> first | rfl | cases he
  | line _ _ _ _ ih => exact List.forall_mem_cons.mpr ⟨rfl, isAllowed_line _ ih⟩

theorem startsWith_quoteMark (double : Bool) {w u : List Char}
    (hw : startsWith isWhite w = false) :
    startsWith isWhite (w ++ quoteMark double :: u) = false :=
  startsWith_append hw (by cases double <;> rfl)

/-- One step of reading that takes the characters `v` for `t`, and all that follows. -/
theorem body_append {double : Bool} {v w s t u : List Char} {fuel : Nat} {done : List Char}
    {c : Cursor} (hv : v ≠ []) (hc : c.rest = (v ++ w) ++ quoteMark double :: u)
    (hfuel : (v ++ w).length < fuel)
    (hstep : ∀ fuel, Quoted.body double (fuel + 1) done c =
      Quoted.body double fuel (t.reverse ++ done) (c.advance v.length))
    (ih : ∀ fuel done (c : Cursor), c.rest = w ++ quoteMark double :: u → w.length < fuel →
      Quoted.body double fuel done c =
        .ok (String.ofList (done.reverse ++ s), c.advance (w.length + 1))) :
    Quoted.body double fuel done c =
      .ok (String.ofList (done.reverse ++ (t ++ s)), c.advance ((v ++ w).length + 1)) := by
  obtain ⟨fuel, rfl⟩ := Nat.exists_eq_add_one_of_ne_zero (Nat.ne_zero_of_lt hfuel)
  have hlength := List.length_pos_iff.mpr hv
  rw [List.length_append] at hfuel
  rw [List.append_assoc] at hc
  rw [hstep, ih fuel _ _ (Cursor.rest_advance_of_append hc) (by omega), Cursor.advance_add,
    List.length_append, List.reverse_append, List.reverse_reverse, List.append_assoc,
    Nat.add_assoc]

theorem body_white {double : Bool} {ch : Char} (hch : isWhite ch = true) {v run : List Char}
    {c d : Cursor} (hc : c.rest = ch :: v) (hblanks : Quoted.blanks c = .ok (run, d))
    (done : List Char) (fuel : Nat) :
    Quoted.body double (fuel + 1) done c = Quoted.body double fuel (run.reverse ++ done) d := by
  have hwhite : (isBlank ch || isBreak ch) = true := hch
  rw [Quoted.body, hc]
  dsimp only
  rw [if_pos hwhite, hblanks]
  rfl

theorem body_char {double : Bool} {ch : Char} (hch : isWhite ch = false)
    (hquote : ch ≠ quoteMark double) (hslash : double = true → ch ≠ '\\') {v : List Char}
    {c : Cursor} (hc : c.rest = ch :: v) (done : List Char) (fuel : Nat) :
    Quoted.body double (fuel + 1) done c = Quoted.body double fuel (ch :: done) c.next := by
  have hwhite : ¬ (isBlank ch || isBreak ch) = true := Bool.eq_false_iff.mp hch
  rw [Quoted.body, hc]
  dsimp only
  rw [if_neg hwhite]
  cases double with
  | true => exact (if_pos rfl).trans ((if_neg hquote).trans (if_neg (hslash rfl)))
  | false => exact (if_neg Bool.false_ne_true).trans (if_neg hquote)

theorem body_escape {v run : List Char} {c : Cursor} {n : Nat}
    (hc : c.rest = '\\' :: v) (hescape : Quoted.escape c.next = .ok (run, c.next.advance n))
    (done : List Char) (fuel : Nat) :
    Quoted.body true (fuel + 1) done c =
      Quoted.body true fuel (run.reverse ++ done) (c.advance (n + 1)) := by
  rw [Quoted.body, hc]
  dsimp only
  rw [if_neg (by decide), if_pos rfl, if_neg (by decide), if_pos rfl, hescape]
  rfl

theorem body_close {double : Bool} {u : List Char}
    (hu : double = false → startsWith (· = '\'') u = false) {c : Cursor}
    (hc : c.rest = quoteMark double :: u) (done : List Char) (fuel : Nat) :
    Quoted.body double (fuel + 1) done c = .ok (String.ofList done.reverse, c.next) := by
  rw [Quoted.body, hc]
  cases double with
  | true => simp [quoteMark, isBlank, isBreak]
  | false =>
    have hhead : u.head? ≠ some '\'' := by
      intro hhead
      obtain ⟨more, rfl⟩ := List.head?_eq_some_iff.mp hhead
      cases hu rfl
    simp [quoteMark, isBlank, isBreak, hhead]

theorem body {double : Bool} {w s : List Char} (h : Quotes double w s) {u : List Char}
    (hu : double = false → startsWith (· = '\'') u = false) (fuel : Nat) (done : List Char)
    (c : Cursor) (hc : c.rest = w ++ quoteMark double :: u) (hfuel : w.length < fuel) :
    Quoted.body double fuel done c =
      .ok (String.ofList (done.reverse ++ s), c.advance (w.length + 1)) := by
  -- Over the pieces of the text, one round of the reader for each; what it has read before is general.
  induction h generalizing fuel done c with
  | nil =>
    obtain ⟨fuel, rfl⟩ := Nat.exists_eq_add_one_of_ne_zero (Nat.ne_zero_of_lt hfuel)
    rw [body_close hu hc, List.append_nil]
    rfl
  | @blanks n w s hn hw _ ih =>
    obtain ⟨n, rfl⟩ := Nat.exists_eq_add_one_of_ne_zero (Nat.ne_of_gt hn)
    refine body_append (by simp) hc hfuel (fun fuel => ?_) ih
    rw [List.append_assoc] at hc
    have hblanks := Quoted.blanks_of_spaces hc (startsWith_quoteMark double hw)
    rw [body_white rfl hc hblanks done fuel, List.length_replicate]
  | @breaks b bs n w s hbs hn hw _ ih =>
    have hparts : b :: (bs ++ (List.replicate n ' ' ++ w)) =
        (b :: (bs ++ List.replicate n ' ')) ++ w := by simp
    rw [hparts] at hc hfuel ⊢
    refine body_append (v := b :: (bs ++ List.replicate n ' ')) (List.cons_ne_nil _ _) hc hfuel
      (fun fuel => ?_) ih
    have hb := isBreak_of_isFoldBreak (hbs b List.mem_cons_self)
    have hrest : c.rest = b :: (bs ++ (List.replicate n ' ' ++ (w ++ quoteMark double :: u))) := by
      rw [hc]
      simp
    have hblanks := Quoted.blanks_of_breaks hbs hn (startsWith_quoteMark double hw) hrest
    rw [body_white (by rw [isWhite, hb, Bool.or_true]) hrest hblanks done fuel]
    simp
  | char _ hch hquote hslash _ ih =>
    exact body_append (v := [_]) (t := [_]) (List.cons_ne_nil _ _) hc hfuel
      (fun fuel => body_char hch hquote hslash hc done fuel) ih
  | quote hdouble _ ih =>
    subst hdouble
    refine body_append (v := ['\'', '\'']) (t := ['\'']) (List.cons_ne_nil _ _) hc hfuel
      (fun fuel => ?_) ih
    rw [Quoted.body, hc]
    rfl
  | short hdouble he _ ih =>
    subst hdouble
    refine body_append (v := ['\\', _]) (t := [_]) (List.cons_ne_nil _ _) hc hfuel
      (fun fuel => body_escape (n := 1) hc ?_ done fuel) ih
    exact Quoted.escape_of_short (Cursor.rest_next_of_cons hc) he
  | @code e ch ds w s code hdouble hshort he hds hcode _ ih =>
    subst hdouble
    rw [← List.cons_append, ← List.cons_append] at hc hfuel ⊢
    refine body_append (t := [_]) (List.cons_ne_nil _ _) hc hfuel (fun fuel => ?_) ih
    rw [List.append_assoc] at hc
    have hescape := Quoted.escape_of_code (Cursor.rest_next_of_cons hc) hshort he hds hcode
    exact body_escape hc hescape done fuel
  | @line n w s hdouble hn hw _ ih =>
    subst hdouble
    rw [← List.cons_append, ← List.cons_append] at hc hfuel ⊢
    refine body_append (t := []) (List.cons_ne_nil _ _) hc hfuel (fun fuel => ?_) ih
    rw [List.append_assoc] at hc
    have hescape := Quoted.escape_of_lineFeed hn (startsWith_quoteMark true hw)
      (Cursor.rest_next_of_cons hc)
    rw [body_escape hc hescape done fuel]
    simp

theorem read {double : Bool} {w s : List Char} (h : Quotes double w s) {u : List Char}
    (hu : double = false → startsWith (· = '\'') u = false) {c : Cursor}
    (hc : c.rest = quoteMark double :: (w ++ quoteMark double :: u)) :
    Quoted.read c = .ok (String.ofList s, c.advance (w.length + 2)) := by
  have hmark : decide (c.rest.head? = some '"') = double := by
    rw [hc]
    cases double <;> rfl
  have hnext := Cursor.rest_next_of_cons hc
  unfold Quoted.read
  rw [hmark, h.body hu _ [] c.next hnext (by rw [hc]; simp; omega)]
  rfl

end Quotes

end FilterTree.Yaml
