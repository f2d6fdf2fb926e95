import FilterTree.Json.Reader
import FilterTree.Json.Writer

/-! Reading back the strings that were written, whatever characters they hold. -/

namespace FilterTree.Json

theorem exists_succ_of_lt {size fuel : Nat} (h : size < fuel) : ∃ n, fuel = n + 1 :=
  Nat.exists_eq_add_one_of_ne_zero (Nat.ne_zero_of_lt h)

theorem codeUnit?_append {cs : List Char} {n : Nat} (h : codeUnit? cs = some (n, []))
    (rest : List Char) : codeUnit? (cs ++ rest) = some (n, rest) := by
  rcases cs with _ | ⟨a, _ | ⟨b, _ | ⟨c, _ | ⟨d, more⟩⟩⟩⟩
  · cases h
  · cases h
  · cases h
  · cases h
  · simp only [codeUnit?, Option.bind_eq_bind, Option.bind_eq_some_iff] at h
    obtain ⟨i, hi, j, hj, k, hk, l, hl, heq⟩ := h
    cases heq
    simp [codeUnit?, hi, hj, hk, hl]

theorem codeUnit?_hexText {n : Nat} (hn : n < 0x20) (rest : List Char) :
    codeUnit? ((hexText 4 n).toList ++ rest) = some (n, rest) := by
  refine codeUnit?_append ?_ rest
  revert n
  decide +kernel

theorem joinHalves_of_lt {n : Nat} (hn : n < 0x20) (rest : List Char) :
    joinHalves n rest = (Char.ofNat n, rest) := by
  have hhigh : isHighHalf n = false := by simp [isHighHalf]; omega
  have hlow : isLowHalf n = false := by simp [isLowHalf]; omega
  simp [joinHalves, hhigh, hlow]

theorem readString_cons (start : List Char) (fuel : Nat) (done : List Char) {c : Char}
    (hquote : ¬ c = '"') (hslash : ¬ c = '\\') (hcontrol : ¬ c.toNat < 0x20) (rest : List Char) :
    readString start (fuel + 1) done (c :: rest) = readString start fuel (c :: done) rest := by
  rw [readString.eq_def]
  simp [hslash, hcontrol]

theorem readString_escapeChar (start : List Char) (fuel : Nat) (done : List Char) (c : Char)
    {rest : List Char} (hrest : rest ≠ []) :
    readString start (fuel + 1) done (escapeChar c ++ rest) =
      readString start fuel (c :: done) rest := by
  -- the cases are those of the writer, in its order
  unfold escapeChar
  split
  · next h =>
    subst h
    rfl
  split
  · next h =>
    subst h
    rfl
  split
  · next h =>
    subst h
    rfl
  split
  · next h =>
    subst h
    rfl
  split
  · next h =>
    subst h
    rfl
  split
  · next h =>
    have hc : c = '\x08' := Char.toNat_inj.mp h
    subst hc
    rfl
  split
  · next h =>
    have hc : c = '\x0c' := Char.toNat_inj.mp h
    subst hc
    rfl
  split
  · next h =>
    have hempty : rest.isEmpty = false := by simpa using hrest
    rw [List.cons_append, List.cons_append, readString, codeUnit?_hexText h]
    simp only [hempty, joinHalves_of_lt h, Char.ofNat_toNat]
    rfl
  · next hquote hslash _ _ _ _ _ hcontrol =>
    exact readString_cons start fuel done hquote hslash hcontrol rest

theorem readString_flatMap (start : List Char) (cs : List Char) (fuel : Nat) (done : List Char)
    (rest : List Char) (hfuel : cs.length < fuel) :
    readString start fuel done (cs.flatMap escapeChar ++ '"' :: rest) =
      .ok (String.ofList (done.reverse ++ cs), rest) := by
  induction cs generalizing fuel done with
  | nil =>
    obtain ⟨fuel, rfl⟩ := Nat.exists_eq_add_one_of_ne_zero (Nat.ne_of_gt hfuel)
    simp [readString]
  | cons c cs ih =>
    obtain ⟨fuel, rfl⟩ := exists_succ_of_lt hfuel
    have hrest : cs.flatMap escapeChar ++ '"' :: rest ≠ [] := by simp
    rw [List.flatMap_cons, List.append_assoc, readString_escapeChar start fuel done c hrest,
      ih fuel (c :: done) (Nat.lt_of_succ_lt_succ hfuel)]
    simp

theorem toList_writeString (s : String) :
    (writeString s).toList = '"' :: (s.toList.flatMap escapeChar ++ ['"']) := by
  rw [writeString, String.toList_ofList]
  rfl

theorem length_le_flatMap_escapeChar (cs : List Char) :
    cs.length ≤ (cs.flatMap escapeChar).length := by
  induction cs with
  | nil => exact Nat.le_refl 0
  | cons c cs ih =>
    have hc : 0 < (escapeChar c).length := by
      unfold escapeChar
      repeat' split
      all_goals simp
    rw [List.flatMap_cons, List.length_append, List.length_cons]
    omega

theorem readString_writeString (start : List Char) (s : String) (fuel : Nat)
    (hfuel : (writeString s).toList.length ≤ fuel + 1) (rest : List Char) :
    readString start fuel [] ((s.toList.flatMap escapeChar ++ ['"']) ++ rest) = .ok (s, rest) := by
  have hlength := length_le_flatMap_escapeChar s.toList
  have hlt : s.toList.length < fuel := by
    rw [toList_writeString] at hfuel
    simp only [List.length_cons, List.length_append, List.length_nil] at hfuel
    omega
  rw [List.append_assoc, List.singleton_append, readString_flatMap start s.toList fuel [] rest hlt]
  simp

end FilterTree.Json
