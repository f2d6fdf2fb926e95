import FilterTree.Number.Decimal
import FilterTree.Proofs.Number.Rounding

/-! What rounding gives is in canonical form, and so is every double that is read or computed. -/

namespace FilterTree

namespace Double

theorem isCanonical_zero (negative : Bool) : (zero negative).IsCanonical :=
  ⟨by decide, by decide, by decide, fun h => absurd h (lt_irrefl _)⟩

theorem roundQuotient_bounds (num den : ℕ) :
    num / den ≤ roundQuotient num den ∧ roundQuotient num den ≤ num / den + 1 := by
  unfold roundQuotient
  dsimp only
  split_ifs <;> omega

theorem significand_spec {num den : ℕ} (hn : 0 < num) (hd : 0 < den) :
    let scaled := scale num den (exponentFor num den)
    roundQuotient scaled.1 scaled.2 ≤ 2 ^ 53 ∧
      (leastExponent < exponentFor num den → 2 ^ 52 ≤ roundQuotient scaled.1 scaled.2) := by
  obtain ⟨n, d, hscale, hd', hratio⟩ := scale_spec num hd (exponentFor num den)
  obtain ⟨-, hhigh, hlow⟩ := exponentFor_spec hn hd
  obtain ⟨hfloor, hceil⟩ := roundQuotient_bounds n d
  have hpow : (0 : ℚ) < 2 ^ exponentFor num den := by positivity
  have hdq : (0 : ℚ) < d := Nat.cast_pos.mpr hd'
  rw [hscale]
  dsimp only
  constructor
  · have hquotient : (n : ℚ) / d < 2 ^ 53 := by
      rw [hratio, div_lt_iff₀ hpow]
      exact hhigh
    rw [div_lt_iff₀ hdq] at hquotient
    have hlt : n / d < 2 ^ 53 := (Nat.div_lt_iff_lt_mul hd').mpr (by exact_mod_cast hquotient)
    omega
  · intro hleast
    have hquotient : (2 : ℚ) ^ 52 ≤ n / d := by
      rw [hratio, le_div_iff₀ hpow]
      exact hlow hleast
    rw [le_div_iff₀ hdq] at hquotient
    have hle : 2 ^ 52 ≤ n / d := (Nat.le_div_iff_mul_le hd').mpr (by exact_mod_cast hquotient)
    omega

theorem isCanonical_ofRatio (negative : Bool) (num : ℕ) {den : ℕ} (hd : 0 < den) :
    (ofRatio negative num den).IsCanonical := by
  unfold ofRatio
  split
  · exact isCanonical_zero negative
  · next hn =>
    obtain ⟨hleast, -, -⟩ := exponentFor_spec (Nat.pos_of_ne_zero hn) hd
    obtain ⟨hhigh, hlow⟩ := significand_spec (Nat.pos_of_ne_zero hn) hd
    dsimp only at hhigh hlow ⊢
    generalize roundQuotient _ _ = q at *
    generalize exponentFor num den = e at *
    split
    -- rounding up to the next power of two moves to the next exponent
    · next htop =>
      dsimp only
      split
      · trivial
      · rw [if_neg (by decide)]
        exact ⟨by decide, by omega, by omega, fun _ => le_refl _⟩
    · next htop =>
      dsimp only
      split
      · trivial
      · split
        · exact isCanonical_zero negative
        · exact ⟨lt_of_le_of_ne hhigh htop, hleast, by omega, hlow⟩

theorem isCanonical_ofDecimal (negative : Bool) (digits : ℕ) (exponent : ℤ) :
    (ofDecimal negative digits exponent).IsCanonical := by
  have hpow (k : ℕ) : 0 < Nat.pow 10 k := Nat.pow_pos (by decide)
  unfold ofDecimal
  dsimp only
  split_ifs
  · exact isCanonical_zero negative
  · trivial
  · exact isCanonical_zero negative
  · exact isCanonical_ofRatio negative _ one_pos
  · exact isCanonical_ofRatio negative _ (hpow _)

theorem IsCanonical.neg {x : Double} (h : x.IsCanonical) : x.neg.IsCanonical := by
  cases x with
  | finite => exact h
  | infinite => trivial

theorem toRatio?_pos {x : Double} {num : ℤ} {den : ℕ} (h : x.toRatio? = some (num, den)) :
    0 < den := by
  cases x with
  | infinite => cases h
  | finite negative m e =>
    simp only [toRatio?, Option.some.injEq] at h
    split at h
    · cases h
      exact one_pos
    · cases h
      exact Nat.pow_pos two_pos

theorem IsCanonical.add? {x y z : Double} (hx : x.IsCanonical) (hy : y.IsCanonical)
    (h : x.add? y = some z) : z.IsCanonical := by
  unfold Double.add? at h
  split at h
  · split at h
    · cases h
      exact hx
    · cases h
  · cases h
    exact hx
  · cases h
    exact hy
  · split at h
    · cases h
      exact isCanonical_zero _
    · split at h
      · next ha hc =>
        cases h
        exact isCanonical_ofRatio _ _ (Nat.mul_pos (toRatio?_pos ha) (toRatio?_pos hc))
      · cases h

theorem isCanonical_scaleBy (x factor : Double) : (x.scaleBy factor).IsCanonical := by
  unfold scaleBy
  split
  · trivial
  · split
    · next ha hc =>
      exact isCanonical_ofRatio _ _ (Nat.mul_pos (toRatio?_pos ha) (toRatio?_pos hc))
    · trivial

end Double

namespace Reading

theorem isCanonical_of_unsigned? {negative : Bool} {cs : List Char} {x : Double}
    (h : unsigned? negative cs = some x) : x.IsCanonical := by
  unfold unsigned? at h
  dsimp only at h
  repeat' split at h
  all_goals first
    | cases h
      exact Double.isCanonical_ofDecimal ..
    | cases h

theorem isCanonical_of_ofText? {s : String} {x : Double} (h : ofText? s = some (.number x)) :
    x.IsCanonical := by
  unfold ofText? at h
  dsimp only at h
  split at h
  all_goals
    split at h
    · cases h
      trivial
    · split at h
      · cases h
      · obtain ⟨y, hy, heq⟩ := Option.map_eq_some_iff.mp h
        cases heq
        exact isCanonical_of_unsigned? hy

end Reading

end FilterTree
