import FilterTree.Json.Writer
import FilterTree.Proofs.Number.Text

/-! Reading back the numbers that were written. A number ends before anything that could not be a
part of it. -/

namespace FilterTree.Json
open Decimal (Ended)

theorem readScalar_of_no_word (cs : List Char) : (∀ w ∈ words, w.1.isPrefixOf cs = false) →
    readScalar cs = match cs with
      | '-' :: rest => readNumber true cs rest
      | _ => readNumber false cs cs := by
  intro h
  unfold readScalar
  split
  · next w v hfind =>
    have hbegins := List.find?_some hfind
    have hnot := h _ (List.mem_of_find?_eq_some hfind)
    exact absurd (hnot.symm.trans hbegins) Bool.false_ne_true
  · rfl

theorem readScalar_decimal (d : Decimal) (negative : Bool) (rest : List Char) : ∃ start,
    readScalar ((if negative then ['-'] else []) ++ d.text ++ rest) =
      readNumber negative start (d.text ++ rest) := by
  obtain ⟨c, tail, htail, hc⟩ := d.exists_text_cons
  have hn := (ne_of_isDigit (x := 'n') hc rfl).symm
  have ht := (ne_of_isDigit (x := 't') hc rfl).symm
  have hf := (ne_of_isDigit (x := 'f') hc rfl).symm
  have hN := (ne_of_isDigit (x := 'N') hc rfl).symm
  have hI := (ne_of_isDigit (x := 'I') hc rfl).symm
  have hminus := ne_of_isDigit (x := '-') hc rfl
  rw [htail]
  cases negative with
  | true =>
    have hno : ∀ w ∈ words, w.1.isPrefixOf ('-' :: c :: (tail ++ rest)) = false := by
      simp [words, List.isPrefixOf, hI]
    exact ⟨'-' :: c :: (tail ++ rest), readScalar_of_no_word _ hno⟩
  | false =>
    have hno : ∀ w ∈ words, w.1.isPrefixOf (c :: (tail ++ rest)) = false := by
      simp [words, List.isPrefixOf, hn, ht, hf, hN, hI, hminus.symm]
    refine ⟨c :: (tail ++ rest), (readScalar_of_no_word _ hno).trans ?_⟩
    split
    · next heq => exact absurd (List.cons.inj heq).1 hminus
    · rfl

def wholeDecimal (n : Nat) : Decimal where
  whole := Nat.toDigits 10 n
  fraction := []
  exponent := none
  isDigit_whole _ h := isDigit_of_mem_toDigits h
  whole_ne := Nat.toDigits_ne_nil
  whole_zero h := by
    obtain ⟨c, more, hdigits, -, hzero⟩ := head?_toDigits n
    rw [hdigits] at h
    rw [hzero (Option.some.inj h), Nat.toDigits_zero]
  isDigit_fraction _ h := by cases h
  isDigit_exponent _ h := by cases h

theorem toList_toString (n : Int) : (toString n).toList =
    (if decide (n < 0) then ['-'] else []) ++ (wholeDecimal n.natAbs).text := by
  have htext : (wholeDecimal n.natAbs).text = Nat.toDigits 10 n.natAbs := by
    simp [Decimal.text, Decimal.fractionText, Decimal.exponentText, wholeDecimal]
  rw [toList_toString_int, htext]
  by_cases hneg : n < 0 <;> simp [hneg]

theorem length_toDigits_le_of_lt {n k : Nat} (hk : 0 < k) (h : n < Nat.pow 10 k) :
    (Nat.toDigits 10 n).length ≤ k :=
  (Nat.length_toDigits_le_iff (by decide) hk).mpr h

theorem length_toDigits_le {n : Int} (h : (Value.int n).isLegible = true) :
    (Nat.toDigits 10 n.natAbs).length ≤ digitLimit := by
  rw [Value.isLegible, decide_eq_true_eq] at h
  unfold Value.tooLong at h
  change _ ≤ Value.digitLimit
  have hpos : 0 < Value.digitLimit := by decide
  -- the limit is generalized, or else its power of ten would be computed
  revert h hpos
  generalize Value.digitLimit = k
  exact fun h hpos => length_toDigits_le_of_lt hpos h

theorem signed_natAbs (n : Int) :
    (if decide (n < 0) = true then -(n.natAbs : Int) else n.natAbs) = n := by
  by_cases hneg : n < 0
  · rw [if_pos (decide_eq_true hneg)]
    omega
  · rw [if_neg (by simpa using hneg)]
    omega

theorem readScalar_toString {n : Int} (hn : (Value.int n).isLegible = true) {rest : List Char}
    (hrest : Ended rest) : readScalar ((toString n).toList ++ rest) = .ok (.int n, rest) := by
  obtain ⟨start, hstart⟩ := readScalar_decimal (wholeDecimal n.natAbs) (decide (n < 0)) rest
  have hshort : ¬ digitLimit < (wholeDecimal n.natAbs).whole.length :=
    Nat.not_lt.mpr (length_toDigits_le hn)
  have hkind : ((wholeDecimal n.natAbs).fraction.isEmpty &&
      (wholeDecimal n.natAbs).exponentValue.isNone) = true := rfl
  rw [toList_toString, hstart, Decimal.readNumber_text _ _ _ hrest, if_pos hkind, if_neg hshort]
  simp only [wholeDecimal, digitsValue_toDigits, signed_natAbs]

theorem readScalar_writeDouble {x : Double} (hx : x.IsCanonical) {rest : List Char}
    (hrest : Ended rest) : readScalar ((writeDouble x).toList ++ rest) = .ok (.float x, rest) := by
  cases x with
  | infinite negative => cases negative <;> rfl
  | finite negative m e =>
    obtain ⟨d, hd, hfractional, hvalue⟩ := Double.exists_text hx
    obtain ⟨start, hstart⟩ := readScalar_decimal d negative rest
    have hnot : (d.fraction.isEmpty && d.exponentValue.isNone) = false := by
      rcases hfractional with hfraction | hexponent
      · simp [hfraction]
      · simp [Decimal.exponentValue, Option.isSome_iff_ne_none.mpr hexponent]
    have hwrite : writeDouble (.finite negative m e) = (Double.finite negative m e).text := rfl
    rw [hwrite, hd, hstart, d.readNumber_text _ _ hrest, hnot, hvalue d rfl]
    rfl

end FilterTree.Json
