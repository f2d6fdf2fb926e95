import FilterTree.Proofs.Text.Numeral
import FilterTree.Yaml.Style

/-! Going through a document: what lies ahead after so many characters, and where a run of characters
of a class ends. -/

namespace FilterTree.Yaml

def isWhite (c : Char) : Bool :=
  isBlank c || isBreak c

def asBreak (c : Char) : Char :=
  if c = '\x85' then '\n' else c

theorem startsWith_append {p : Char → Bool} {v w : List Char} (hv : startsWith p v = false)
    (hw : startsWith p w = false) : startsWith p (v ++ w) = false := by
  cases v with
  | nil => exact hw
  | cons c v => exact hv

theorem startsWith_isBreak {v : List Char} (h : startsWith isWhite v = false) :
    startsWith isBreak v = false := by
  cases v with
  | nil => rfl
  | cons c v => exact (Bool.or_eq_false_iff.mp h).2

theorem startsWith_isBlank {v : List Char} (h : startsWith isWhite v = false) :
    startsWith isBlank v = false := by
  cases v with
  | nil => rfl
  | cons c v => exact (Bool.or_eq_false_iff.mp h).1

theorem startsWith_space {v : List Char} (h : startsWith isWhite v = false) :
    startsWith (· = ' ') v = false := by
  cases v with
  | nil => rfl
  | cons c v =>
    refine decide_eq_false ?_
    rintro rfl
    cases h

theorem beginsWithout_of_startsWith {p : Char → Bool} {v : List Char}
    (h : startsWith p v = false) : BeginsWithout p v := by
  cases v with
  | nil => exact .nil
  | cons c v => exact .cons h v

theorem exists_run {p : Char → Bool} {c : Char} (hc : p c = true) (cs : List Char) :
    ∃ run rest, (c :: cs).takeWhile p = c :: run ∧ (c :: cs).drop (c :: run).length = rest ∧
      cs = run ++ rest ∧ (∀ d ∈ c :: run, p d = true) ∧ startsWith p rest = false := by
  induction cs generalizing c with
  | nil => exact ⟨[], [], by simp [hc], rfl, rfl, by simpa using hc, rfl⟩
  | cons d cs ih =>
    cases hd : p d with
    | false => exact ⟨[], d :: cs, by simp [hc, hd], rfl, rfl, by simpa using hc, hd⟩
    | true =>
      obtain ⟨run, rest, htake, hdrop, hcs, hrun, hrest⟩ := ih hd
      refine ⟨d :: run, rest, ?_, hdrop, by rw [hcs]; rfl, ?_, hrest⟩
      · rw [List.takeWhile_cons_of_pos hc, htake]
      · exact List.forall_mem_cons.mpr ⟨hc, hrun⟩

theorem isBreak_of_isFoldBreak {b : Char} (h : isFoldBreak b = true) : isBreak b = true := by
  simp only [isFoldBreak, Bool.or_eq_true, decide_eq_true_eq] at h
  rcases h with ((rfl | rfl) | rfl) | rfl <;> rfl

theorem cases_of_isBreak {b : Char} (h : isBreak b = true) :
    b = '\n' ∨ b = '\r' ∨ b = '\x85' ∨ b = '\u2028' ∨ b = '\u2029' := by
  simpa [isBreak, or_assoc] using h

theorem cases_of_isWhite {c : Char} (h : isWhite c = true) :
    c = ' ' ∨ c = '\t' ∨ c = '\n' ∨ c = '\r' ∨ c = '\x85' ∨ c = '\u2028' ∨ c = '\u2029' := by
  simpa [isWhite, isBlank, isBreak, or_assoc] using h

theorem isBlank_of_isBreak {b : Char} (h : isBreak b = true) : isBlank b = false := by
  rcases cases_of_isBreak h with rfl | rfl | rfl | rfl | rfl <;> rfl

theorem isAllowed_spaces (n : Nat) {w : List Char} (hw : ∀ ch ∈ w, isAllowed ch = true) :
    ∀ ch ∈ List.replicate n ' ' ++ w, isAllowed ch = true :=
  List.forall_mem_append.mpr ⟨fun _ hch => List.eq_of_mem_replicate hch ▸ rfl, hw⟩

theorem isAllowed_line (n : Nat) {w : List Char} (hw : ∀ ch ∈ w, isAllowed ch = true) :
    ∀ ch ∈ '\n' :: (List.replicate n ' ' ++ w), isAllowed ch = true :=
  List.forall_mem_cons.mpr ⟨rfl, isAllowed_spaces n hw⟩

namespace Cursor

theorem rest_next (c : Cursor) : c.next.rest = c.rest.drop 1 := by
  unfold next
  split
  · next h => rw [h]; rfl
  · next h =>
    rw [h]
    split
    · rfl
    · split <;> rfl

theorem rest_advance (n : Nat) (c : Cursor) : (c.advance n).rest = c.rest.drop n := by
  induction n generalizing c with
  | zero => rfl
  | succ n ih => rw [advance, ih, rest_next, List.drop_drop, Nat.add_comm]

theorem advance_add (m n : Nat) (c : Cursor) : (c.advance m).advance n = c.advance (m + n) := by
  induction m generalizing c with
  | zero => rw [Nat.zero_add]; rfl
  | succ m ih => rw [Nat.succ_add]; exact ih c.next

theorem rest_advance_of_append {c : Cursor} {w v : List Char} (h : c.rest = w ++ v) :
    (c.advance w.length).rest = v := by
  rw [rest_advance, h, List.drop_left]

theorem rest_next_of_cons {c : Cursor} {ch : Char} {v : List Char} (h : c.rest = ch :: v) :
    c.next.rest = v := by
  rw [rest_next, h]
  rfl

theorem span_of_append {p : Char → Bool} {c : Cursor} {w v : List Char} (h : c.rest = w ++ v)
    (hw : ∀ ch ∈ w, p ch = true) (hv : startsWith p v = false) :
    c.span p = (w, c.advance w.length) := by
  unfold span
  rw [h, (beginsWithout_of_startsWith hv).takeWhile_append hw]

theorem skip_of_append {p : Char → Bool} {c : Cursor} {w v : List Char} (h : c.rest = w ++ v)
    (hw : ∀ ch ∈ w, p ch = true) (hv : startsWith p v = false) :
    c.skip p = c.advance w.length := by
  rw [skip, span_of_append h hw hv]

theorem skip_spaces {p : Char → Bool} (hp : p ' ' = true) {c : Cursor} {n : Nat} {v : List Char}
    (h : c.rest = List.replicate n ' ' ++ v) (hv : startsWith p v = false) :
    c.skip p = c.advance n := by
  rw [skip_of_append h (fun ch hch => List.eq_of_mem_replicate hch ▸ hp) hv, List.length_replicate]

theorem span_spaces {p : Char → Bool} (hp : p ' ' = true) {c : Cursor} {n : Nat} {v : List Char}
    (h : c.rest = List.replicate n ' ' ++ v) (hv : startsWith p v = false) :
    c.span p = (List.replicate n ' ', c.advance n) := by
  rw [span_of_append h (fun ch hch => List.eq_of_mem_replicate hch ▸ hp) hv, List.length_replicate]

theorem rest_advance_spaces {c : Cursor} {n : Nat} {v : List Char}
    (h : c.rest = List.replicate n ' ' ++ v) : (c.advance n).rest = v := by
  simpa using rest_advance_of_append h

theorem takeBreak?_eq_none {c : Cursor} (h : startsWith isBreak c.rest = false) :
    c.takeBreak? = none := by
  unfold takeBreak?
  split
  · next hrest =>
    rw [hrest] at h
    cases h
  · next ch v _ hrest =>
    rw [hrest] at h
    have hbreak : isBreak ch = false := h
    have huncommon : ¬ (ch = '\u2028' ∨ ch = '\u2029') := by
      rintro (rfl | rfl) <;> cases hbreak
    rw [if_neg huncommon, if_neg (Bool.not_eq_true _ ▸ hbreak)]
  · rfl

theorem takeBreak?_advance_spaces {c : Cursor} {n : Nat} {v : List Char}
    (h : c.rest = List.replicate n ' ' ++ v) (hv : startsWith isWhite v = false) :
    (c.advance n).takeBreak? = none :=
  takeBreak?_eq_none (rest_advance_spaces h ▸ startsWith_isBreak hv)

theorem takeBreak?_of_isFoldBreak {c : Cursor} {b : Char} {v : List Char}
    (hb : isFoldBreak b = true) (h : c.rest = b :: v) :
    c.takeBreak? = some (asBreak b, c.next) := by
  simp only [isFoldBreak, Bool.or_eq_true, decide_eq_true_eq] at hb
  unfold takeBreak?
  rw [h]
  rcases hb with ((rfl | rfl) | rfl) | rfl <;> rfl

theorem column_advance_spaces {c : Cursor} {n : Nat} {v : List Char}
    (h : c.rest = List.replicate n ' ' ++ v) : (c.advance n).column = c.column + n := by
  induction n generalizing c with
  | zero => rfl
  | succ n ih =>
    rw [List.replicate_succ, List.cons_append] at h
    have hnext : c.next.column = c.column + 1 := by
      unfold next
      rw [h]
      rfl
    rw [advance, ih (rest_next_of_cons h), hnext]
    omega

theorem column_next_lineFeed {c : Cursor} {v : List Char} (h : c.rest = '\n' :: v) :
    c.next.column = 0 := by
  unfold next
  rw [h]
  rfl

theorem column_advance_line {c : Cursor} {n : Nat} {v : List Char}
    (h : c.rest = '\n' :: (List.replicate n ' ' ++ v)) : (c.advance (n + 1)).column = n := by
  rw [advance, column_advance_spaces (rest_next_of_cons h), column_next_lineFeed h, Nat.zero_add]

theorem next_of_not_isBreak {c : Cursor} {ch : Char} {v : List Char} (h : c.rest = ch :: v)
    (hch : isBreak ch = false) :
    c.next.index = c.index + 1 ∧ c.next.line = c.line ∧ c.column ≤ c.next.column ∧
      (ch ≠ '\ufeff' → c.next.column = c.column + 1) := by
  unfold next
  rw [h]
  dsimp only
  rw [hch, Bool.false_and, if_neg Bool.false_ne_true]
  split
  · next hmark => exact ⟨rfl, rfl, Nat.le_refl _, fun hne => absurd hmark hne⟩
  · exact ⟨rfl, rfl, Nat.le_succ _, fun _ => rfl⟩

theorem advance_of_not_isBreak {c : Cursor} {w v : List Char} (h : c.rest = w ++ v)
    (hw : ∀ ch ∈ w, isBreak ch = false) :
    (c.advance w.length).index = c.index + w.length ∧ (c.advance w.length).line = c.line ∧
      c.column ≤ (c.advance w.length).column := by
  induction w generalizing c with
  | nil => exact ⟨rfl, rfl, Nat.le_refl _⟩
  | cons ch w ih =>
    obtain ⟨hch, hw⟩ := List.forall_mem_cons.mp hw
    obtain ⟨hindex, hline, hcolumn, -⟩ := next_of_not_isBreak h hch
    obtain ⟨hindex', hline', hcolumn'⟩ := ih (rest_next_of_cons h) hw
    refine ⟨?_, hline'.trans hline, Nat.le_trans hcolumn hcolumn'⟩
    rw [List.length_cons, advance, hindex', hindex, Nat.add_assoc, Nat.add_comm 1]

end Cursor

end FilterTree.Yaml
