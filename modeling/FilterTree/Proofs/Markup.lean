import FilterTree.Markup
import FilterTree.Proofs.Text.Numeral
import Mathlib.Data.List.Basic
import Mathlib.Data.List.TakeWhile

/-! Escaped text read as markup. An escaped text has no tag that counts, so that it reads as it
stands wherever nothing that follows can complete a tag of it. A single backslash at its end is
doubled, which only a tag right after it makes up for. -/

namespace FilterTree.Markup

def isBracket (c : Char) : Bool :=
  c = '[' || c = ']'

/-- A letter or mark behind an opening bracket, and no bracket from there to the closing one. -/
def IsTag (cs : List Char) : Prop :=
  ∃ c inner, cs = '[' :: c :: (inner ++ [']']) ∧ beginsTag c = true ∧
    ∀ d ∈ inner, isBracket d = false

def StartsTag (cs : List Char) : Prop :=
  ∃ k tag rest, IsTag tag ∧ cs = List.replicate k '\\' ++ (tag ++ rest)

/-! ### Cutting into pieces -/

section
variable {cs tag rest : List Char} {c : Char} {n : Nat}

theorem drop_length_takeWhile (p : Char → Bool) (cs : List Char) :
    cs.drop (cs.takeWhile p).length = cs.dropWhile p := by
  calc cs.drop (cs.takeWhile p).length
      = (cs.takeWhile p ++ cs.dropWhile p).drop (cs.takeWhile p).length := by
        rw [List.takeWhile_append_dropWhile]
    _ = cs.dropWhile p := List.drop_left

theorem tagLength?_of_isTag (h : IsTag tag) (rest : List Char) :
    tagLength? (tag ++ rest) = some tag.length := by
  obtain ⟨c, inner, rfl, hc, hinner⟩ := h
  have hshape : '[' :: c :: (inner ++ [']']) ++ rest = '[' :: c :: (inner ++ ']' :: rest) := by simp
  have hrun : (inner ++ ']' :: rest).takeWhile (fun d => d ≠ '[' && d ≠ ']') = inner :=
    BeginsWithout.takeWhile_append (.cons rfl rest) fun d hd => by
      simpa [isBracket] using hinner d hd
  rw [hshape, tagLength?]
  simp only [hc, if_true, hrun, List.drop_left]
  simp

theorem exists_isTag_of_tagLength? (h : tagLength? cs = some n) :
    ∃ tag rest, IsTag tag ∧ cs = tag ++ rest ∧ n = tag.length := by
  unfold tagLength? at h
  split at h
  · next c body =>
    split at h
    · next hc =>
      dsimp only at h
      split at h
      · next rest hdrop =>
        rw [drop_length_takeWhile] at hdrop
        have hbody := List.takeWhile_append_dropWhile (p := fun d => d ≠ '[' && d ≠ ']') (l := body)
        rw [hdrop] at hbody
        refine ⟨'[' :: c :: (body.takeWhile (fun d => d ≠ '[' && d ≠ ']') ++ [']']), rest,
          ⟨c, _, rfl, hc, fun d hd => ?_⟩, ?_, ?_⟩
        · simpa [isBracket] using List.mem_takeWhile_imp hd
        · rw [List.cons_append, List.cons_append, List.append_assoc]
          exact congrArg (fun l => '[' :: c :: l) hbody.symm
        · simpa using (Option.some.inj h).symm
      · cases h
    · cases h
  · cases h

theorem IsTag.beginsWithout_backslash (h : IsTag tag) (rest : List Char) :
    BeginsWithout (· = '\\') (tag ++ rest) := by
  obtain ⟨c, inner, rfl, -, -⟩ := h
  exact .cons rfl _

theorem exists_run (cs : List Char) :
    ∃ k rest, cs = List.replicate k '\\' ++ rest ∧ BeginsWithout (· = '\\') rest := by
  induction cs with
  | nil => exact ⟨0, [], rfl, .nil⟩
  | cons c cs ih =>
    by_cases hc : c = '\\'
    · obtain ⟨k, rest, rfl, hrest⟩ := ih
      exact ⟨k + 1, rest, by rw [hc]; rfl, hrest⟩
    · exact ⟨0, c :: cs, rfl, .cons (by simpa using hc) cs⟩

theorem IsTag.length_pos (h : IsTag tag) : 0 < tag.length := by
  obtain ⟨c, inner, rfl, -, -⟩ := h
  exact Nat.zero_lt_succ _

theorem takeWhile_run {k : Nat} (h : BeginsWithout (· = '\\') rest) :
    (List.replicate k '\\' ++ rest).takeWhile (· = '\\') = List.replicate k '\\' :=
  h.takeWhile_append fun c hc => by simpa using List.eq_of_mem_replicate hc

theorem drop_run {k : Nat} (h : BeginsWithout (· = '\\') rest) :
    (List.replicate k '\\' ++ rest).drop
      ((List.replicate k '\\' ++ rest).takeWhile (· = '\\')).length = rest := by
  rw [takeWhile_run h, List.drop_left]

theorem piecesWithin_of_tag {k fuel : Nat} (h : IsTag tag) (rest : List Char) :
    piecesWithin (fuel + 1) (List.replicate k '\\' ++ (tag ++ rest)) =
      .tag k tag :: piecesWithin fuel rest := by
  have hbegins := h.beginsWithout_backslash rest
  rw [piecesWithin.eq_def]
  simp only [drop_run hbegins, tagLength?_of_isTag h rest, List.take_left, List.drop_left]
  rw [takeWhile_run hbegins, List.length_replicate]

theorem piecesWithin_of_plain {fuel : Nat} (h : ¬StartsTag (c :: cs)) :
    piecesWithin (fuel + 1) (c :: cs) = Piece.push c (piecesWithin fuel cs) := by
  obtain ⟨k, rest, hrun, hrest⟩ := exists_run (c :: cs)
  have hnone : tagLength? rest = none := by
    rw [Option.eq_none_iff_forall_ne_some]
    intro n hn
    obtain ⟨tag, after, htag, rfl, -⟩ := exists_isTag_of_tagLength? hn
    exact h ⟨k, tag, after, htag, hrun⟩
  have hdrop : (c :: cs).drop ((c :: cs).takeWhile (· = '\\')).length = rest := by
    rw [hrun, drop_run hrest]
  rw [piecesWithin.eq_def]
  simp only [hdrop, hnone]

/-- Every text is empty, or begins with a tag, or with a character that is no part of one. -/
theorem pieceInduction {P : List Char → Prop} (nil : P [])
    (tag : ∀ k tag rest, IsTag tag → P rest → P (List.replicate k '\\' ++ (tag ++ rest)))
    (plain : ∀ c cs, ¬StartsTag (c :: cs) → P cs → P (c :: cs)) (cs : List Char) : P cs := by
  induction hn : cs.length using Nat.strongRecOn generalizing cs with
  | _ n ih =>
    by_cases hstarts : StartsTag cs
    · obtain ⟨k, t, rest, ht, rfl⟩ := hstarts
      have hlength := ht.length_pos
      exact tag k t rest ht (ih rest.length (by simp at hn; omega) rest rfl)
    · cases cs with
      | nil => exact nil
      | cons c cs => exact plain c cs hstarts (ih cs.length (by simp at hn; omega) cs rfl)

theorem piecesWithin_of_lt {fuel : Nat} (h : cs.length < fuel) : piecesWithin fuel cs = pieces cs := by
  suffices ∀ cs : List Char, ∀ m n, cs.length < m → cs.length < n →
      piecesWithin m cs = piecesWithin n cs from this cs fuel _ h (Nat.lt_succ_self _)
  intro cs
  induction cs using pieceInduction with
  | nil =>
    intro m n hm hn
    obtain ⟨m, rfl⟩ := Nat.exists_eq_succ_of_ne_zero (Nat.ne_zero_of_lt hm)
    obtain ⟨n, rfl⟩ := Nat.exists_eq_succ_of_ne_zero (Nat.ne_zero_of_lt hn)
    rfl
  | tag k tag rest ht ih =>
    intro m n hm hn
    have hpos := ht.length_pos
    simp only [List.length_append, List.length_replicate] at hm hn
    obtain ⟨m, rfl⟩ := Nat.exists_eq_succ_of_ne_zero (Nat.ne_zero_of_lt hm)
    obtain ⟨n, rfl⟩ := Nat.exists_eq_succ_of_ne_zero (Nat.ne_zero_of_lt hn)
    rw [piecesWithin_of_tag ht, piecesWithin_of_tag ht, ih m n (by omega) (by omega)]
  | plain c cs hno ih =>
    intro m n hm hn
    simp only [List.length_cons] at hm hn
    obtain ⟨m, rfl⟩ := Nat.exists_eq_succ_of_ne_zero (Nat.ne_zero_of_lt hm)
    obtain ⟨n, rfl⟩ := Nat.exists_eq_succ_of_ne_zero (Nat.ne_zero_of_lt hn)
    rw [piecesWithin_of_plain hno, piecesWithin_of_plain hno,
      ih m n (by omega) (by omega)]

theorem pieces_of_tag (k : Nat) (h : IsTag tag) (rest : List Char) :
    pieces (List.replicate k '\\' ++ (tag ++ rest)) = .tag k tag :: pieces rest := by
  have hpos := h.length_pos
  rw [pieces, piecesWithin_of_tag h, piecesWithin_of_lt (by simp; omega)]

theorem pieces_of_plain (h : ¬StartsTag (c :: cs)) : pieces (c :: cs) = Piece.push c (pieces cs) :=
  piecesWithin_of_plain h

theorem flatMap_push {f : Piece → List Char} (hf : ∀ cs, f (.plain cs) = cs) (c : Char)
    (ps : List Piece) : (Piece.push c ps).flatMap f = c :: ps.flatMap f := by
  rcases ps with _ | ⟨_ | _, ps⟩ <;> simp [Piece.push, hf]

end

/-! ### Escaping -/

def escaped (cs : List Char) : List Char :=
  (pieces cs).flatMap Piece.escaped

def Piece.read : Piece → List Char
  | .plain cs => cs
  | .tag n cs => List.replicate (n / 2) '\\' ++ if n % 2 = 1 then cs else []

def reading (cs : List Char) : List Char :=
  (pieces cs).flatMap Piece.read

section
variable {cs tag rest : List Char} {c : Char}

theorem escaped_of_tag (k : Nat) (h : IsTag tag) (rest : List Char) :
    escaped (List.replicate k '\\' ++ (tag ++ rest)) =
      List.replicate (2 * k + 1) '\\' ++ (tag ++ escaped rest) := by
  rw [escaped, pieces_of_tag k h, List.flatMap_cons, Piece.escaped, List.append_assoc]
  rfl

theorem escaped_of_plain (h : ¬StartsTag (c :: cs)) : escaped (c :: cs) = c :: escaped cs := by
  rw [escaped, pieces_of_plain h, flatMap_push fun _ => rfl]
  rfl

theorem reading_of_escaped_tag (k : Nat) (h : IsTag tag) (rest : List Char) :
    reading (List.replicate (2 * k + 1) '\\' ++ (tag ++ rest)) =
      List.replicate k '\\' ++ (tag ++ reading rest) := by
  have hhalf : (2 * k + 1) / 2 = k := by omega
  have hodd : (2 * k + 1) % 2 = 1 := by omega
  rw [reading, pieces_of_tag _ h, List.flatMap_cons, Piece.read, hhalf, if_pos hodd,
    List.append_assoc]
  rfl

theorem reading_of_plain (h : ¬StartsTag (c :: cs)) : reading (c :: cs) = c :: reading cs := by
  rw [reading, pieces_of_plain h, flatMap_push fun _ => rfl]
  rfl

/-! ### Brackets -/

theorem isBracket_of_beginsTag (h : beginsTag c = true) : isBracket c = false := by
  rw [Bool.eq_false_iff]
  intro hbracket
  have hc : c = '[' ∨ c = ']' := by simpa [isBracket] using hbracket
  rcases hc with rfl | rfl <;> cases h

theorem find?_of_tag (k : Nat) (h : IsTag tag) (rest : List Char) :
    (List.replicate k '\\' ++ (tag ++ rest)).find? isBracket = some '[' := by
  obtain ⟨c, inner, rfl, -, -⟩ := h
  have hrun : (List.replicate k '\\').find? isBracket = none :=
    List.find?_eq_none.mpr fun d hd => by rw [List.eq_of_mem_replicate hd]; decide
  rw [List.find?_append, hrun]
  rfl

theorem find?_escaped (cs : List Char) : (escaped cs).find? isBracket = cs.find? isBracket := by
  induction cs using pieceInduction with
  | nil => rfl
  | tag k tag rest ht ih => rw [escaped_of_tag k ht, find?_of_tag _ ht, find?_of_tag _ ht]
  | plain c cs hno ih => rw [escaped_of_plain hno, List.find?_cons, List.find?_cons, ih]

theorem startsTag_cons_iff : StartsTag (c :: cs) ↔ (c = '\\' ∧ StartsTag cs) ∨
    (c = '[' ∧ ∃ d more, cs = d :: more ∧ beginsTag d = true ∧
      more.find? isBracket = some ']') := by
  constructor
  · rintro ⟨_ | k, tag, rest, htag, heq⟩
    · obtain ⟨d, inner, rfl, hd, hinner⟩ := htag
      obtain ⟨rfl, rfl⟩ := List.cons.inj heq
      refine .inr ⟨rfl, d, inner ++ ']' :: rest, by simp, hd, ?_⟩
      have hnone : inner.find? isBracket = none :=
        List.find?_eq_none.mpr fun d hd => by simp [hinner d hd]
      rw [List.find?_append, hnone]
      rfl
    · obtain ⟨rfl, rfl⟩ := List.cons.inj heq
      exact .inl ⟨rfl, k, tag, rest, htag, rfl⟩
  · rintro (⟨rfl, k, tag, rest, htag, rfl⟩ | ⟨rfl, d, more, rfl, hd, hmore⟩)
    · exact ⟨k + 1, tag, rest, htag, rfl⟩
    · obtain ⟨-, inner, rest, rfl, hinner⟩ := List.find?_eq_some_iff_append.mp hmore
      refine ⟨0, '[' :: d :: (inner ++ [']']), rest, ⟨d, inner, rfl, hd, fun e he => ?_⟩, by simp⟩
      simpa using hinner e he

/-- Text that cannot complete a tag which stands before it, nor begins with a tag. -/
structure Apart (rest : List Char) : Prop where
  no_close : rest.find? isBracket ≠ some ']'
  no_tag : ¬StartsTag rest

theorem eq_or_eq_backslash_of_escaped {d : Char} {more : List Char}
    (h : escaped (c :: cs) ++ rest = d :: more) : d = c ∨ d = '\\' := by
  by_cases hstarts : StartsTag (c :: cs)
  · obtain ⟨k, tag, after, htag, heq⟩ := hstarts
    rw [heq, escaped_of_tag k htag] at h
    exact .inr (List.cons.inj h).1.symm
  · rw [escaped_of_plain hstarts] at h
    exact .inl (List.cons.inj h).1.symm

theorem startsTag_of_escaped (hrest : Apart rest) (h : StartsTag (escaped cs ++ rest)) :
    StartsTag cs := by
  induction cs using pieceInduction with
  | nil => exact absurd h hrest.no_tag
  | tag k tag more ht ih => exact ⟨k, tag, more, ht, rfl⟩
  | plain c cs hno ih =>
    rw [escaped_of_plain hno, List.cons_append, startsTag_cons_iff] at h
    rw [startsTag_cons_iff]
    rcases h with ⟨hc, hstarts⟩ | ⟨hc, d, more, heq, hd, hmore⟩
    · exact .inl ⟨hc, ih hstarts⟩
    · -- the bracket that closes the tag is one of the text
      have hclose : cs.find? isBracket = some ']' := by
        have hfind : (escaped cs ++ rest).find? isBracket = some ']' := by
          rw [heq, List.find?_cons, isBracket_of_beginsTag hd, hmore]
        rw [List.find?_append, find?_escaped] at hfind
        cases hcs : cs.find? isBracket with
        | some e => rw [hcs] at hfind; exact hfind
        | none => rw [hcs] at hfind; exact absurd hfind hrest.no_close
      cases cs with
      | nil => cases hclose
      | cons e cs =>
        rcases eq_or_eq_backslash_of_escaped heq with rfl | rfl
        · rw [List.find?_cons, isBracket_of_beginsTag hd] at hclose
          exact .inr ⟨hc, d, cs, rfl, hd, hclose⟩
        · cases hd

theorem reading_escaped_append (hrest : Apart rest) (cs : List Char) :
    reading (escaped cs ++ rest) = cs ++ reading rest := by
  induction cs using pieceInduction with
  | nil => rfl
  | tag k tag more ht ih =>
    rw [escaped_of_tag k ht, List.append_assoc, List.append_assoc, reading_of_escaped_tag k ht, ih,
      List.append_assoc, List.append_assoc]
  | plain c cs hno ih =>
    have hplain : ¬StartsTag (c :: (escaped cs ++ rest)) := by
      intro hstarts
      refine hno (startsTag_of_escaped hrest ?_)
      rwa [escaped_of_plain hno]
    rw [escaped_of_plain hno, List.cons_append, reading_of_plain hplain, ih, List.cons_append]

/-! ### The end of a text -/

def EndsAlone (cs : List Char) : Prop :=
  ∃ before, cs = before ++ ['\\'] ∧ before.getLast? ≠ some '\\'

theorem endsAlone_concat_iff : EndsAlone (cs ++ [c]) ↔ c = '\\' ∧ cs.getLast? ≠ some '\\' := by
  constructor
  · rintro ⟨before, heq, hlast⟩
    obtain ⟨rfl, hc⟩ := List.append_inj' heq rfl
    exact ⟨(List.cons.inj hc).1, hlast⟩
  · rintro ⟨rfl, hlast⟩
    exact ⟨cs, rfl, hlast⟩

theorem endsAlone_append_iff (xs : List Char) (h : ∃ d ∈ cs, d ≠ '\\') :
    EndsAlone (xs ++ cs) ↔ EndsAlone cs := by
  rcases List.eq_nil_or_concat' cs with rfl | ⟨before, last, rfl⟩
  · simp at h
  · rw [← List.append_assoc, endsAlone_concat_iff, endsAlone_concat_iff]
    refine and_congr_right fun hlast => ?_
    have hbefore : before ≠ [] := by
      rintro rfl
      simp [hlast] at h
    rw [List.getLast?_append_of_ne_nil _ hbefore]

theorem guardEnd_of_endsAlone (h : EndsAlone cs) : guardEnd cs = cs ++ ['\\'] := by
  obtain ⟨before, rfl, hlast⟩ := h
  rcases List.eq_nil_or_concat' before with rfl | ⟨more, d, rfl⟩
  · rfl
  · have hd : d ≠ '\\' := by simpa using hlast
    simp [guardEnd, hd]

theorem guardEnd_of_not_endsAlone (h : ¬EndsAlone cs) : guardEnd cs = cs := by
  rcases List.eq_nil_or_concat' cs with rfl | ⟨before, c, rfl⟩
  · rfl
  · rw [endsAlone_concat_iff, not_and_not_right] at h
    by_cases hc : c = '\\'
    · obtain ⟨more, hmore⟩ := List.getLast?_eq_some_iff.mp (h hc)
      simp [guardEnd, hc, hmore]
    · simp [guardEnd, hc]

theorem endsAlone_iff_guardEnd_ne : EndsAlone cs ↔ guardEnd cs ≠ cs := by
  by_cases h : EndsAlone cs
  · simp [h, guardEnd_of_endsAlone h]
  · simp [h, guardEnd_of_not_endsAlone h]

instance (cs : List Char) : Decidable (EndsAlone cs) :=
  decidable_of_iff _ endsAlone_iff_guardEnd_ne.symm

theorem escaped_of_all (h : ∀ d ∈ cs, d = '\\') : escaped cs = cs := by
  induction cs using pieceInduction with
  | nil => rfl
  | tag k tag rest ht ih =>
    obtain ⟨d, inner, rfl, -, -⟩ := ht
    have hd := h '[' (by simp)
    cases hd
  | plain c cs hno ih =>
    rw [escaped_of_plain hno, ih fun d hd => h d (List.mem_cons_of_mem _ hd)]

theorem exists_ne_of_escaped (h : ∃ d ∈ cs, d ≠ '\\') : ∃ d ∈ escaped cs, d ≠ '\\' := by
  induction cs using pieceInduction with
  | nil => exact h
  | tag k tag rest ht ih =>
    obtain ⟨d, inner, rfl, -, -⟩ := id ht
    exact ⟨'[', by rw [escaped_of_tag k ht]; simp, by decide⟩
  | plain c cs hno ih =>
    rw [escaped_of_plain hno]
    obtain ⟨d, hd, hne⟩ := h
    rcases List.mem_cons.mp hd with rfl | hmem
    · exact ⟨d, List.mem_cons_self, hne⟩
    · obtain ⟨e, he, hother⟩ := ih ⟨d, hmem, hne⟩
      exact ⟨e, List.mem_cons_of_mem _ he, hother⟩

theorem endsAlone_cons_escaped_iff (c : Char) (h : EndsAlone (escaped cs) ↔ EndsAlone cs) :
    EndsAlone (c :: escaped cs) ↔ EndsAlone (c :: cs) := by
  by_cases hother : ∃ d ∈ cs, d ≠ '\\'
  · rw [← List.singleton_append, endsAlone_append_iff [c] (exists_ne_of_escaped hother), h,
      ← endsAlone_append_iff [c] hother, List.singleton_append]
  · rw [escaped_of_all fun d hd => by_contra fun hne => hother ⟨d, hd, hne⟩]

theorem endsAlone_escaped_iff (cs : List Char) : EndsAlone (escaped cs) ↔ EndsAlone cs := by
  induction cs using pieceInduction with
  | nil => rfl
  | tag k tag rest ht ih =>
    -- what stands up to the closing bracket does not matter
    have hcut (n : Nat) (more : List Char) :
        EndsAlone (List.replicate n '\\' ++ (tag ++ more)) ↔ EndsAlone (']' :: more) := by
      obtain ⟨d, inner, rfl, -, -⟩ := ht
      have hshape : List.replicate n '\\' ++ ('[' :: d :: (inner ++ [']']) ++ more) =
          (List.replicate n '\\' ++ '[' :: d :: inner) ++ ']' :: more := by simp
      rw [hshape, endsAlone_append_iff _ ⟨']', List.mem_cons_self, by decide⟩]
    rw [escaped_of_tag k ht, hcut, hcut, endsAlone_cons_escaped_iff _ ih]
  | plain c cs hno ih => rw [escaped_of_plain hno, endsAlone_cons_escaped_iff _ ih]

/-! ### Escaped text in a label -/

theorem Apart.backslash (h : Apart rest) : Apart ('\\' :: rest) where
  no_close := h.no_close
  no_tag hstarts := by
    rcases startsTag_cons_iff.mp hstarts with ⟨-, hmore⟩ | ⟨hc, -⟩
    · exact h.no_tag hmore
    · cases hc

theorem toList_escape (s : String) : (escape s).toList = guardEnd (escaped s.toList) :=
  String.toList_ofList

/-- A text that ends in a single backslash is read with one more. -/
theorem reading_escape_append (hrest : Apart rest) (s : String) :
    reading ((escape s).toList ++ rest) = guardEnd s.toList ++ reading rest := by
  rw [toList_escape]
  by_cases hend : EndsAlone s.toList
  · rw [guardEnd_of_endsAlone ((endsAlone_escaped_iff _).mpr hend), guardEnd_of_endsAlone hend,
      List.append_assoc, List.append_assoc, List.singleton_append,
      reading_escaped_append hrest.backslash, reading_of_plain hrest.backslash.no_tag]
    rfl
  · rw [guardEnd_of_not_endsAlone (mt (endsAlone_escaped_iff _).mp hend),
      guardEnd_of_not_endsAlone hend, reading_escaped_append hrest]

end

end FilterTree.Markup
