import Mathlib.Logic.Relation
import FilterTree.Proofs.Yaml.Place
import FilterTree.Yaml.Token

/-! The lexer, turn by turn. Before each turn it skips what separates tokens, forgets the keys that can
no longer be, and closes the collections that end there; where that leaves it is where it stands. -/

namespace FilterTree.Yaml

namespace Lexer

def settle (x : Lexer) : Except Failure Lexer := do
  let y ← x.dropStale
  y.skipBlank.dropStale

/-- One token further, and not yet at the end. -/
def Turn (x y : Lexer) : Prop :=
  ∃ s, x.settle = .ok s ∧ (s.close s.cursor.column).next = .ok y ∧
    y.tokens.back? ≠ some .streamEnd ∧ y.cursor.rest.length < x.cursor.rest.length

abbrev Turns : Lexer → Lexer → Prop :=
  Relation.ReflTransGen Turn

theorem run_of_next {x s y : Lexer} (hs : x.settle = .ok s)
    (hy : (s.close s.cursor.column).next = .ok y) (fuel : Nat) :
    run (fuel + 1) x =
      if y.tokens.back? = some .streamEnd then ⟨y.tokens.toList, none⟩ else run fuel y := by
  unfold settle at hs
  rw [run]
  cases hx : x.dropStale with
  | error f =>
    rw [hx] at hs
    cases hs
  | ok z =>
    rw [hx] at hs
    have hs : z.skipBlank.dropStale = .ok s := hs
    have hstep : (do
        let skipped ← z.skipBlank.dropStale
        (skipped.close skipped.cursor.column).next) = .ok y := by
      rw [hs]
      exact hy
    simp only [hstep]

theorem run_of_turns {x y : Lexer} (h : Turns x y) : ∀ fuel, x.cursor.rest.length < fuel →
    ∃ more, y.cursor.rest.length < more ∧ run fuel x = run more y := by
  induction h with
  | refl => exact fun fuel hfuel => ⟨fuel, hfuel, rfl⟩
  | tail _ hturn ih =>
    intro fuel hfuel
    obtain ⟨more, hmore, hrun⟩ := ih fuel hfuel
    obtain ⟨s, hs, hy, hback, hrest⟩ := hturn
    obtain ⟨more, rfl⟩ := Nat.exists_eq_add_one_of_ne_zero (Nat.ne_zero_of_lt hmore)
    exact ⟨more, by omega, by rw [hrun, run_of_next hs hy, if_neg hback]⟩

def amid (c : Cursor) (allowed : Bool) (indent : Int) (outer : List Int) (ts : List Token) :
    Lexer :=
  ⟨c, ts.toArray, 0, indent, outer, allowed, []⟩

/-- Where the lexer stands before a token at this column, as far as it is about to close collections
that reach beyond the column. -/
def Stands (x : Lexer) (u : List Char) (column : Nat) (allowed : Bool) (indent : Int)
    (outer : List Int) (ts : List Token) : Prop :=
  ∃ c s, x.settle = .ok s ∧ s.cursor = c ∧ c.rest = u ∧ c.column = column ∧
    u.length ≤ x.cursor.rest.length ∧
    s.close column = (amid c allowed indent outer ts).close column

/-! ### Between tokens -/

structure Begins (u : List Char) : Prop where
  white : startsWith isWhite u = false
  comment : u.head? ≠ some '#'
  mark : u.head? ≠ some '\ufeff'

/-- The place of the first token of a line, which is no mark of a document. -/
structure Follows (n : Nat) (u : List Char) : Prop extends Begins u where
  marker : n = 0 → atMarker u = false

theorem skipLines_of_spaces {x : Lexer} {n : Nat} {u : List Char}
    (h : x.cursor.rest = List.replicate n ' ' ++ u) (hu : startsWith isWhite u = false)
    (hcomment : u.head? ≠ some '#') (fuel : Nat) :
    skipLines (fuel + 1) x = { x with cursor := x.cursor.advance n } := by
  have hskip : x.cursor.skipSpaces = x.cursor.advance n :=
    Cursor.skip_spaces (p := (· = ' ')) rfl h (startsWith_space hu)
  have hkeep : (x.cursor.advance n).skipComment = x.cursor.advance n := by
    rw [Cursor.skipComment, Cursor.rest_advance_spaces h, if_neg hcomment]
  have hnone := Cursor.takeBreak?_advance_spaces h hu
  rw [skipLines, hskip, hkeep]
  simp only [hnone]

theorem skipLines_of_line {x : Lexer} (hflow : x.flow = 0) {n : Nat} {u : List Char}
    (h : x.cursor.rest = '\n' :: (List.replicate n ' ' ++ u)) (hu : startsWith isWhite u = false)
    (hcomment : u.head? ≠ some '#') (fuel : Nat) :
    skipLines (fuel + 2) x =
      { x with cursor := x.cursor.advance (n + 1), keyAllowed := true } := by
  have hskip : x.cursor.skipSpaces = x.cursor :=
    Cursor.skip_spaces (n := 0) (p := (· = ' ')) rfl h rfl
  have hkeep : x.cursor.skipComment = x.cursor := by
    rw [Cursor.skipComment, h, if_neg (by simp)]
  have hbreak := Cursor.takeBreak?_of_isFoldBreak (b := '\n') rfl h
  rw [skipLines, hskip, hkeep]
  simp only [hbreak]
  rw [skipLines_of_spaces (n := n) (u := u) (Cursor.rest_next_of_cons h) hu hcomment]
  simp [hflow, Cursor.advance]

theorem skipBlank_of_mark {x : Lexer} (h : x.cursor.rest.head? ≠ some '\ufeff') :
    x.skipBlank = skipLines (x.cursor.rest.length + 1) x := by
  unfold skipBlank
  simp [h]

theorem head?_ne_mark {n : Nat} {u v : List Char} (h : v = List.replicate n ' ' ++ u)
    (hu : Begins u) : v.head? ≠ some '\ufeff' := by
  subst h
  cases n with
  | zero => exact hu.mark
  | succ n => simp [List.replicate_succ]

theorem skipBlank_spaces {x : Lexer} {n : Nat} {u : List Char}
    (h : x.cursor.rest = List.replicate n ' ' ++ u) (hu : Begins u) :
    x.skipBlank = { x with cursor := x.cursor.advance n } :=
  (skipBlank_of_mark (head?_ne_mark h hu)).trans (skipLines_of_spaces h hu.white hu.comment _)

theorem skipBlank_line {x : Lexer} (hflow : x.flow = 0) {n : Nat} {u : List Char}
    (h : x.cursor.rest = '\n' :: (List.replicate n ' ' ++ u)) (hu : Begins u) :
    x.skipBlank = { x with cursor := x.cursor.advance (n + 1), keyAllowed := true } := by
  have hmark : x.cursor.rest.head? ≠ some '\ufeff' := by
    rw [h]
    simp
  obtain ⟨fuel, hfuel⟩ : ∃ k, x.cursor.rest.length + 1 = k + 2 := by
    rw [h]
    exact ⟨(List.replicate n ' ' ++ u).length, rfl⟩
  rw [skipBlank_of_mark hmark, hfuel]
  exact skipLines_of_line hflow h hu.white hu.comment fuel

def HasIdle (x : Lexer) : Prop :=
  ∀ k ∈ x.candidates, k.isRequired = false ∧ k.line ≤ x.cursor.line

theorem dropStale_of_hasIdle {x : Lexer} (h : x.HasIdle) :
    x.dropStale = .ok { x with candidates := x.candidates.filter x.isCurrent } := by
  have hnone : ¬ (x.candidates.any fun k => !x.isCurrent k && k.isRequired) = true := by
    simp only [List.any_eq_true, not_exists, not_and]
    intro k hk
    simp [(h k hk).1]
  rw [dropStale, if_neg hnone]

theorem dropStale_of_newLine {x : Lexer} (h : x.HasIdle)
    (hline : ∀ k ∈ x.candidates, k.line < x.cursor.line) :
    x.dropStale = .ok { x with candidates := [] } := by
  have hnone : x.candidates.filter x.isCurrent = [] := by
    refine List.filter_eq_nil_iff.mpr fun k hk => ?_
    have := hline k hk
    simp [isCurrent, Nat.ne_of_lt this]
  rw [dropStale_of_hasIdle h, hnone]

theorem settle_spaces {x : Lexer} {n : Nat} {u : List Char}
    (h : x.cursor.rest = List.replicate n ' ' ++ u) (hu : Begins u)
    (hline : ∀ k ∈ x.candidates, k.isRequired = false ∧ k.line < x.cursor.line) :
    x.settle = .ok { x with cursor := x.cursor.advance n, candidates := [] } := by
  have hidle : x.HasIdle := fun k hk => ⟨(hline k hk).1, Nat.le_of_lt (hline k hk).2⟩
  unfold settle
  rw [dropStale_of_newLine hidle fun k hk => (hline k hk).2]
  change (skipBlank { x with candidates := [] }).dropStale = _
  rw [skipBlank_spaces (x := { x with candidates := [] }) h hu]
  exact dropStale_of_newLine nofun nofun

theorem settle_line {x : Lexer} (hflow : x.flow = 0) (hidle : x.HasIdle) {n : Nat} {u : List Char}
    (h : x.cursor.rest = '\n' :: (List.replicate n ' ' ++ u)) (hu : Begins u) :
    x.settle = .ok
      { x with cursor := x.cursor.advance (n + 1), keyAllowed := true, candidates := [] } := by
  have hnext : (x.cursor.advance (n + 1)).line = x.cursor.line + 1 := by
    have hspaces := Cursor.advance_of_not_isBreak (c := x.cursor.next) (w := List.replicate n ' ')
      (Cursor.rest_next_of_cons h) fun ch hch => by rw [List.eq_of_mem_replicate hch]; rfl
    rw [List.length_replicate] at hspaces
    rw [Cursor.advance, hspaces.2.1]
    unfold Cursor.next
    rw [h]
    rfl
  unfold settle
  rw [dropStale_of_hasIdle hidle]
  change (skipBlank { x with candidates := x.candidates.filter x.isCurrent }).dropStale = _
  rw [skipBlank_line (x := { x with candidates := x.candidates.filter x.isCurrent }) hflow h hu]
  have hlines (k : Candidate) (hk : k ∈ x.candidates.filter x.isCurrent) :
      k.isRequired = false ∧ k.line < (x.cursor.advance (n + 1)).line := by
    obtain ⟨hrequired, hline⟩ := hidle k (List.mem_filter.mp hk).1
    exact ⟨hrequired, by omega⟩
  exact dropStale_of_newLine (fun k hk => ⟨(hlines k hk).1, Nat.le_of_lt (hlines k hk).2⟩)
    fun k hk => (hlines k hk).2

theorem stands_spaces {x : Lexer} (hflow : x.flow = 0) {n : Nat} {u : List Char}
    (h : x.cursor.rest = List.replicate n ' ' ++ u) (hu : Begins u)
    (hline : ∀ k ∈ x.candidates, k.isRequired = false ∧ k.line < x.cursor.line) :
    x.Stands u (x.cursor.advance n).column x.keyAllowed x.indent x.outer x.tokens.toList := by
  refine ⟨_, _, settle_spaces h hu hline, rfl, Cursor.rest_advance_spaces h, rfl, ?_, ?_⟩
  · rw [h, List.length_append]
    omega
  · simp [amid, hflow]

theorem stands_line {x : Lexer} (hflow : x.flow = 0) (hidle : x.HasIdle) {n : Nat} {u : List Char}
    (h : x.cursor.rest = '\n' :: (List.replicate n ' ' ++ u)) (hu : Begins u) :
    x.Stands u n true x.indent x.outer x.tokens.toList := by
  refine ⟨_, _, settle_line hflow hidle h hu, rfl, ?_, Cursor.column_advance_line h, ?_, ?_⟩
  · rw [Cursor.rest_advance, h]
    simp
  · rw [h]
    simp
    omega
  · simp [amid, hflow]

/-! ### Collections -/

theorem close_of_le {x : Lexer} {column : Int} (h : x.indent ≤ column) : x.close column = x := by
  have hstay : ¬ column < x.indent := Int.not_lt.mpr h
  unfold close
  split
  · cases x.outer with
    | nil => rfl
    | cons i outer => rw [closeBeyond, if_neg hstay]
  · rfl

theorem close_amid_beyond {c : Cursor} {allowed : Bool} {indent column i : Int} {outer : List Int}
    {ts : List Token} (h : column < indent) :
    (amid c allowed indent (i :: outer) ts).close column =
      (amid c allowed i outer (ts ++ [.blockEnd])).close column := by
  have hleave : column < (amid c allowed indent (i :: outer) ts).indent := h
  change closeBeyond column (i :: outer) (amid c allowed indent (i :: outer) ts) =
    closeBeyond column outer (amid c allowed i outer (ts ++ [.blockEnd]))
  rw [closeBeyond, if_pos hleave]
  simp [amid, emit]

theorem Stands.pop {x : Lexer} {u : List Char} {column : Nat} {allowed : Bool} {indent i : Int}
    {outer : List Int} {ts : List Token}
    (h : x.Stands u column allowed indent (i :: outer) ts) (hcolumn : column < indent) :
    x.Stands u column allowed i outer (ts ++ [.blockEnd]) := by
  obtain ⟨c, s, hs, hc, hu, hcol, hlength, hclose⟩ := h
  exact ⟨c, s, hs, hc, hu, hcol, hlength, hclose.trans (close_amid_beyond hcolumn)⟩

theorem Stands.exists_place {x : Lexer} {u : List Char} {column : Nat} {allowed : Bool}
    {indent : Int} {outer : List Int} {ts : List Token}
    (h : x.Stands u column allowed indent outer ts) (hcolumn : indent ≤ column) :
    ∃ c : Cursor, c.rest = u ∧ c.column = column ∧
      ∀ y, (amid c allowed indent outer ts).next = .ok y →
      y.tokens.back? ≠ some .streamEnd → y.cursor.rest.length < u.length → Turn x y := by
  obtain ⟨c, s, hs, hc, hu, hcol, hlength, hclose⟩ := h
  refine ⟨c, hu, hcol, fun y hy hback hrest => ⟨s, hs, ?_, hback, by omega⟩⟩
  rw [hc, hcol, hclose, close_of_le hcolumn, hy]

def around (indent : Int) (column : Nat) (outer : List Int) : List Int :=
  if indent < column then indent :: outer else outer

def begun (indent : Int) (column : Nat) (t : Token) : List Token :=
  if indent < column then [t] else []

theorem openHere_amid {c : Cursor} {indent : Int} (outer : List Int) (ts : List Token)
    (h : indent ≤ c.column) (t : Token) :
    (amid c true indent outer ts).openHere t =
      .ok (amid c true c.column (around indent c.column outer)
        (ts ++ begun indent c.column t)) := by
  unfold openHere opens around begun
  by_cases hlt : indent < c.column
  · simp [amid, hlt, emit]
  · have heq : indent = c.column := by omega
    simp [amid, heq]

theorem dropCandidate_of_level {x : Lexer} (h : ∀ k ∈ x.candidates, k.level ≠ x.flow) :
    x.dropCandidate = .ok x := by
  have hnone : ¬ (x.candidates.any fun k => k.level == x.flow && k.isRequired) = true := by
    simp only [List.any_eq_true, not_exists, not_and]
    intro k hk
    simp [h k hk]
  have hkept : x.candidates.filter (·.level != x.flow) = x.candidates :=
    List.filter_eq_self.mpr fun k hk => by simp [h k hk]
  rw [dropCandidate, if_neg hnone, hkept]

theorem dropCandidate_amid (c : Cursor) (allowed : Bool) (indent : Int) (outer : List Int)
    (ts : List Token) :
    (amid c allowed indent outer ts).dropCandidate = .ok (amid c allowed indent outer ts) :=
  dropCandidate_of_level nofun

section Marks
variable {c : Cursor} {indent : Int} {v : List Char}

theorem atMarker_blank (a : Char) (v : List Char) : atMarker (a :: ' ' :: v) = false := by
  cases v with
  | nil => rfl
  | cons d v =>
    by_cases ha : a = ' '
    · subst ha
      rfl
    · simp [atMarker, Ne.symm ha]

theorem take_amid (c : Cursor) (allowed : Bool) (indent : Int) (outer : List Int) (ts : List Token)
    (t : Token) :
    (amid c allowed indent outer ts).take 1 t = amid c.next allowed indent outer (ts ++ [t]) := by
  simp [take, emit, amid, Cursor.advance]

theorem next_dash (outer : List Int) (ts : List Token) (hc : c.rest = '-' :: ' ' :: v)
    (h : indent ≤ c.column) :
    (amid c true indent outer ts).next = .ok (amid c.next true c.column
      (around indent c.column outer)
      (ts ++ begun indent c.column .blockSequence ++ [.blockEntry])) := by
  have hnext : (amid c true indent outer ts).next = (amid c true indent outer ts).blockEntry := by
    simp [next, amid, hc, atMarker_blank, startsBlank, isBlank]
  rw [hnext, blockEntry, openHere_amid outer ts h]
  change (do
    let x ← (amid c true c.column (around indent c.column outer)
      (ts ++ begun indent c.column .blockSequence)).dropCandidate
    pure { x.take 1 .blockEntry with keyAllowed := true } : Except Failure Lexer) = _
  rw [dropCandidate_amid]
  change Except.ok _ = _
  rw [take_amid]
  rfl

theorem next_question (outer : List Int) (ts : List Token) (hc : c.rest = '?' :: ' ' :: v)
    (h : indent ≤ c.column) :
    (amid c true indent outer ts).next = .ok (amid c.next true c.column
      (around indent c.column outer) (ts ++ begun indent c.column .blockMapping ++ [.key])) := by
  have hnext : (amid c true indent outer ts).next = (amid c true indent outer ts).key := by
    simp [next, amid, hc, atMarker_blank, startsBlank, isBlank]
  rw [hnext, key, openHere_amid outer ts h]
  change (do
    let x ← (amid c true c.column (around indent c.column outer)
      (ts ++ begun indent c.column .blockMapping)).dropCandidate
    pure { x.take 1 .key with keyAllowed := x.flow = 0 } : Except Failure Lexer) = _
  rw [dropCandidate_amid]
  change Except.ok _ = _
  rw [take_amid]
  rfl

theorem next_colon (outer : List Int) (ts : List Token) (hc : c.rest = ':' :: ' ' :: v) :
    (amid c true c.column outer ts).next =
      .ok (amid c.next true c.column outer (ts ++ [.value])) := by
  have hnext : (amid c true c.column outer ts).next = (amid c true c.column outer ts).value := by
    simp [next, amid, hc, atMarker_blank, startsBlank, isBlank]
  have hopen := openHere_amid outer ts (Int.le_refl (c.column : Int)) .blockMapping
  have hnone : (amid c true c.column outer ts).candidates.find?
      (·.level == (amid c true c.column outer ts).flow) = none := rfl
  rw [around, begun, if_neg (Int.lt_irrefl _), if_neg (Int.lt_irrefl _), List.append_nil] at hopen
  rw [hnext, value, hnone]
  dsimp only
  rw [hopen]
  change (do
    let x ← (amid c true c.column outer ts).dropCandidate
    pure { x.take 1 .value with keyAllowed := x.flow = 0 } : Except Failure Lexer) = _
  rw [dropCandidate_amid]
  change Except.ok _ = _
  rw [take_amid]
  rfl

end Marks

end Lexer

end FilterTree.Yaml
