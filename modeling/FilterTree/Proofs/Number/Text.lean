import Mathlib.Data.List.DropRight
import FilterTree.Proofs.Number.Decimal
import FilterTree.Proofs.Number.Shortest

/-! The text of a double. It is a decimal that denotes a number near the double, so that reading it
gives the double back. -/

namespace FilterTree.Double

theorem exists_stripZeros (digits : List Char) :
    ∃ n, digits = stripZeros digits ++ List.replicate n '0' := by
  have hzeros : ∀ c ∈ digits.rtakeWhile (· == '0'), c = '0' :=
    fun _ hc => beq_iff_eq.mp (List.mem_rtakeWhile_imp (p := (· == '0')) hc)
  refine ⟨(digits.rtakeWhile (· == '0')).length, ?_⟩
  rw [← List.eq_replicate_of_mem hzeros]
  exact (List.rdropWhile_append_rtakeWhile (p := (· == '0')) (l := digits)).symm

theorem head?_stripZeros {n : Nat} (hn : n ≠ 0) :
    (stripZeros (Nat.toDigits 10 n)).head? ≠ some '0' := by
  intro hhead
  obtain ⟨k, hk⟩ := exists_stripZeros (Nat.toDigits 10 n)
  obtain ⟨c, more, hdigits, -, hzero⟩ := head?_toDigits n
  have hfirst := congrArg List.head? hk
  rw [List.head?_append, hhead, hdigits] at hfirst
  exact hn (hzero (Option.some.inj hfirst))

theorem stripZeros_ne_nil {n : Nat} (hn : n ≠ 0) : stripZeros (Nat.toDigits 10 n) ≠ [] := by
  intro hnil
  obtain ⟨k, hk⟩ := exists_stripZeros (Nat.toDigits 10 n)
  have hvalue := digitsValue_toDigits n
  rw [hk, hnil, List.nil_append, digitsValue_replicate_zero] at hvalue
  exact hn hvalue.symm

theorem denoted_stripZeros (n : Nat) (u : Int) :
    (digitsValue (stripZeros (Nat.toDigits 10 n)) : ℚ) * 10 ^
      (((Nat.toDigits 10 n).length : Int) + u - (stripZeros (Nat.toDigits 10 n)).length) =
        n * 10 ^ u := by
  obtain ⟨k, hk⟩ := exists_stripZeros (Nat.toDigits 10 n)
  have hlength := congrArg List.length hk
  rw [List.length_append, List.length_replicate] at hlength
  have hexp : ((Nat.toDigits 10 n).length : Int) + u - (stripZeros (Nat.toDigits 10 n)).length =
      k + u := by
    omega
  have hvalue : (n : ℚ) = 10 ^ k * digitsValue (stripZeros (Nat.toDigits 10 n)) := by
    have hdigits := digitsValue_toDigits n
    rw [hk, digitsValue_append, digitsValue_replicate_zero, List.length_replicate,
      Nat.add_zero] at hdigits
    exact_mod_cast hdigits.symm
  rw [hexp, hvalue, zpow_add₀ (by norm_num), zpow_natCast]
  ring

/-- A finite double is written as a sign and a decimal with a point or an exponent, and every
decimal for the same number denotes the double. -/
theorem exists_text {negative : Bool} {m : Nat} {e : Int}
    (hc : IsCanonical (.finite negative m e)) : ∃ d : Decimal,
    (text (.finite negative m e)).toList = (if negative then ['-'] else []) ++ d.text ∧
      d.IsFractional ∧
      ∀ d' : Decimal, d'.amount = d.amount → d'.value negative = .finite negative m e := by
  by_cases hm : m = 0
  -- zero is written apart from the search for digits
  · have he : e = leastExponent := by
      by_contra hne
      have hlow := hc.2.2.2 (lt_of_le_of_ne hc.2.1 (Ne.symm hne))
      rw [hm] at hlow
      exact absurd hlow (by decide)
    refine ⟨⟨['0'], ['0'], none, Decimal.isDigit_of_mem_zero, List.cons_ne_nil _ _, fun _ => rfl,
      Decimal.isDigit_of_mem_zero, fun _ h => by cases h⟩, ?_, .inl (List.cons_ne_nil _ _),
      fun d' hamount => ?_⟩
    · rw [text, if_pos hm]
      cases negative <;> simp [Decimal.text, Decimal.fractionText, Decimal.exponentText]
    · have hzero : d'.amount = 0 := hamount.trans (zero_mul _)
      rw [hm, he, d'.value_of_amount_eq_zero hzero]
      rfl
  · obtain ⟨n, u, hshortest, hround⟩ := shortest_spec hm hc.1 e
    have hn := hround.digits_ne_zero hm
    obtain ⟨k, hk⟩ := exists_stripZeros (Nat.toDigits 10 n)
    have hall : ∀ c ∈ stripZeros (Nat.toDigits 10 n), c.isDigit = true := fun c hc =>
      isDigit_of_mem_toDigits (n := n) (hk ▸ List.mem_append_left _ hc)
    obtain ⟨d, hd, hfractional, hamount⟩ := Decimal.exists_layout hall (head?_stripZeros hn)
      (stripZeros_ne_nil hn) ((Nat.toDigits 10 n).length + u)
    refine ⟨d, ?_, hfractional, fun d' hamount' => ?_⟩
    · simp only [text, if_neg hm, hshortest, String.toList_append, hd]
      cases negative <;> rfl
    · rw [← denoted_stripZeros n u, ← hamount, ← hamount'] at hround
      exact ofDecimal_eq hc hm hround

theorem toLower_of_isDigit {c : Char} (h : c.isDigit = true) : c.toLower = c := by
  have hupper : ¬ (c.val ≥ 'A'.val ∧ c.val ≤ 'Z'.val) := by
    intro hletter
    have hnine : c.val.toNat ≤ 57 := (toNat_of_isDigit h).2
    have hsixty : 65 ≤ c.val.toNat := UInt32.le_iff_toNat_le.mp hletter.1
    omega
  unfold Char.toLower
  rw [dif_neg hupper]

theorem ofText?_decimal {negative : Bool} {d : Decimal} {s : String}
    (hd : s.toList = (if negative then ['-'] else []) ++ d.text) :
    Reading.ofText? s = some (.number (d.value negative)) := by
  obtain ⟨c, tail, htail, hc⟩ := d.exists_text_cons
  have hword (w : String) (x : Char) (hx : w.toList.head? = some x) (hdigit : x.isDigit = false) :
      String.ofList (d.text.map Char.toLower) ≠ w := by
    rintro rfl
    rw [String.toList_ofList, htail, List.map_cons, toLower_of_isDigit hc] at hx
    exact ne_of_isDigit hc hdigit (Option.some.inj hx)
  have hnumber := d.unsigned?_text negative
  have hinf := hword "inf" 'i' rfl rfl
  have hinfinity := hword "infinity" 'i' rfl rfl
  have hnan := hword "nan" 'n' rfl rfl
  unfold Reading.ofText?
  rw [hd]
  cases negative with
  | true => simp [hinf, hinfinity, hnan, hnumber]
  | false =>
    have hminus : c ≠ '-' := ne_of_isDigit hc rfl
    have hplus : c ≠ '+' := ne_of_isDigit hc rfl
    simp only [Bool.false_eq_true, if_false, List.nil_append]
    rw [htail] at hinf hinfinity hnan hnumber ⊢
    simp [-List.map_cons, hminus, hplus, hinf, hinfinity, hnan, hnumber]

end FilterTree.Double
