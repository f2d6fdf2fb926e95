import Mathlib.Algebra.Order.Field.Power
import Mathlib.Data.Nat.Log
import Mathlib.Tactic.FieldSimp
import Mathlib.Tactic.Linarith
import Mathlib.Tactic.NormNum
import Mathlib.Tactic.Positivity
import Mathlib.Tactic.Ring
import FilterTree.Number.Double

/-! Rounding a ratio to the nearest double. What lies between the midpoints to the neighbours of a
double is rounded to it, and the midpoints themselves if its significand is even. -/

namespace FilterTree.Double

/-! ### To the nearest integer -/

structure NearestEven (x : ℚ) (q : ℕ) : Prop where
  low : (q : ℚ) - 1 / 2 ≤ x
  high : x ≤ q + 1 / 2
  even : x = q - 1 / 2 ∨ x = q + 1 / 2 → q % 2 = 0

theorem roundQuotient_eq {n d q : ℕ} (hd : 0 < d) (h : NearestEven (n / d) q) :
    roundQuotient n d = q := by
  have hdq : (0 : ℚ) < d := Nat.cast_pos.mpr hd
  have hn : (n : ℚ) = d * (n / d : ℕ) + (n % d : ℕ) := by
    exact_mod_cast (Nat.div_add_mod n d).symm
  have hr : n % d < d := Nat.mod_lt n hd
  have hx : (n : ℚ) / d = (n / d : ℕ) + (n % d : ℕ) / d := by
    rw [hn]
    field_simp
  obtain ⟨hlow, hhigh, heven⟩ := h
  rw [hx] at hlow hhigh heven
  unfold roundQuotient
  generalize n / d = k at *
  generalize n % d = r at *
  have hfrac : (r : ℚ) / d < 1 := (div_lt_one hdq).mpr (Nat.cast_lt.mpr hr)
  have hfrac_nonneg : (0 : ℚ) ≤ r / d := by positivity
  have hle : k ≤ q := by
    have : (k : ℚ) < q + 1 := by linarith
    exact Nat.lt_succ_iff.mp (by exact_mod_cast this)
  have hge : q ≤ k + 1 := by
    have : (q : ℚ) < k + 2 := by linarith
    exact Nat.lt_succ_iff.mp (by exact_mod_cast this)
  have hhalf : 2 * r < d ↔ (r : ℚ) / d < 1 / 2 := by
    rw [div_lt_div_iff₀ hdq two_pos]
    norm_cast
    omega
  have hhalf' : d < 2 * r ↔ (1 : ℚ) / 2 < r / d := by
    rw [div_lt_div_iff₀ two_pos hdq]
    norm_cast
    omega
  simp only [hhalf, hhalf']
  -- rounding is down to `k` or up to its successor
  rcases Nat.lt_or_eq_of_le hge with hlt | rfl
  · obtain rfl : q = k := by omega
    split_ifs with hless hmore hk
    · rfl
    · linarith
    · rfl
    · exact absurd (heven (.inr (by linarith))) hk
  · push_cast at hlow heven
    split_ifs with hless hmore hk
    · linarith
    · rfl
    · have := heven (.inl (by linarith))
      omega
    · rfl

/-! ### Units -/

theorem scale_spec (num : ℕ) {den : ℕ} (hd : 0 < den) (e : ℤ) : ∃ n d, scale num den e = (n, d) ∧
    0 < d ∧ (n : ℚ) / d = num / den / 2 ^ e := by
  have hpow (k : ℕ) : 0 < 2 ^ k := Nat.pow_pos two_pos
  unfold scale
  split
  · next he =>
    obtain ⟨k, rfl⟩ := Int.eq_ofNat_of_zero_le he
    refine ⟨num, den * 2 ^ k, rfl, Nat.mul_pos hd (hpow k), ?_⟩
    push_cast
    rw [zpow_natCast, div_div]
  · next he =>
    obtain ⟨k, hk⟩ := Int.eq_ofNat_of_zero_le (Int.neg_nonneg_of_nonpos (Int.not_le.mp he).le)
    obtain rfl : e = -k := by omega
    refine ⟨num * 2 ^ k, den, ?_, hd, ?_⟩
    · rw [neg_neg]
      rfl
    · push_cast
      rw [zpow_neg, zpow_natCast]
      field_simp

/-- Only one unit leaves a quotient of 53 bits, unless it is the least. -/
theorem unit_unique {x : ℚ} {e k : ℤ} (he : x < 2 ^ 53 * 2 ^ e) (hk : x < 2 ^ 53 * 2 ^ k)
    (he_low : leastExponent < e → 2 ^ 52 * 2 ^ e ≤ x)
    (hk_low : leastExponent < k → 2 ^ 52 * 2 ^ k ≤ x)
    (he_least : leastExponent ≤ e) (hk_least : leastExponent ≤ k) : e = k := by
  have hbelow {a b : ℤ} (ha : x < 2 ^ 53 * 2 ^ a) (hb : leastExponent < b → 2 ^ 52 * 2 ^ b ≤ x)
      (ha_least : leastExponent ≤ a) : b ≤ a := by
    by_contra hlt
    have hstep : a + 1 ≤ b := by omega
    have hpow : (2 : ℚ) ^ (a + 1) ≤ 2 ^ b := zpow_le_zpow_right₀ one_le_two hstep
    rw [zpow_add_one₀ two_ne_zero] at hpow
    have := hb (by omega)
    linarith
  exact le_antisymm (hbelow hk he_low hk_least) (hbelow he hk_low he_least)

theorem log2_spec {n : ℕ} (hn : 0 < n) :
    (2 : ℚ) ^ (n.log2 : ℤ) ≤ n ∧ (n : ℚ) < 2 ^ ((n.log2 : ℤ) + 1) := by
  have hlow : 2 ^ n.log2 ≤ n := Nat.log2_self_le hn.ne'
  have hhigh : n < 2 ^ (n.log2 + 1) := Nat.lt_log2_self
  constructor
  · rw [zpow_natCast]
    exact_mod_cast hlow
  · rw [← Nat.cast_succ, zpow_natCast]
    exact_mod_cast hhigh

theorem guess_spec {num den : ℕ} (hn : 0 < num) (hd : 0 < den) {guess : ℤ}
    (hguess : (num.log2 : ℤ) - den.log2 - 52 = guess) :
    2 ^ 51 * 2 ^ guess ≤ (num : ℚ) / den ∧ (num : ℚ) / den < 2 ^ 53 * 2 ^ guess := by
  obtain ⟨hnum_low, hnum_high⟩ := log2_spec hn
  obtain ⟨hden_low, hden_high⟩ := log2_spec hd
  have hdq : (0 : ℚ) < den := Nat.cast_pos.mpr hd
  constructor
  · have hexp : 2 ^ (51 : ℤ) * 2 ^ guess * 2 ^ ((den.log2 : ℤ) + 1) = (2 : ℚ) ^ (num.log2 : ℤ) := by
      rw [← zpow_add₀ two_ne_zero, ← zpow_add₀ two_ne_zero, ← hguess]
      congr 1
      ring
    rw [le_div_iff₀ hdq]
    calc 2 ^ (51 : ℤ) * 2 ^ guess * (den : ℚ)
        ≤ 2 ^ (51 : ℤ) * 2 ^ guess * 2 ^ ((den.log2 : ℤ) + 1) :=
          mul_le_mul_of_nonneg_left hden_high.le (by positivity)
      _ = 2 ^ (num.log2 : ℤ) := hexp
      _ ≤ num := hnum_low
  · have hexp : (2 : ℚ) ^ ((num.log2 : ℤ) + 1) = 2 ^ (53 : ℤ) * 2 ^ guess * 2 ^ (den.log2 : ℤ) := by
      rw [← zpow_add₀ two_ne_zero, ← zpow_add₀ two_ne_zero, ← hguess]
      congr 1
      ring
    rw [div_lt_iff₀ hdq]
    calc (num : ℚ) < 2 ^ ((num.log2 : ℤ) + 1) := hnum_high
      _ = 2 ^ (53 : ℤ) * 2 ^ guess * 2 ^ (den.log2 : ℤ) := hexp
      _ ≤ 2 ^ (53 : ℤ) * 2 ^ guess * den := mul_le_mul_of_nonneg_left hden_low (by positivity)

theorem exponentFor_spec {num den : ℕ} (hn : 0 < num) (hd : 0 < den) :
    leastExponent ≤ exponentFor num den ∧
      (num : ℚ) / den < 2 ^ 53 * 2 ^ exponentFor num den ∧
      (leastExponent < exponentFor num den →
        2 ^ 52 * 2 ^ exponentFor num den ≤ (num : ℚ) / den) := by
  unfold exponentFor
  generalize hguess : (num.log2 : ℤ) - den.log2 - 52 = guess
  obtain ⟨hlow, hhigh⟩ := guess_spec hn hd hguess
  obtain ⟨n, d, hscale, hd_pos, hratio⟩ := scale_spec num hd guess
  have hless : n / d < 2 ^ 52 ↔ (num : ℚ) / den < 2 ^ 52 * 2 ^ guess := by
    rw [Nat.div_lt_iff_lt_mul hd_pos, ← div_lt_iff₀ (by positivity), ← hratio,
      div_lt_iff₀ (Nat.cast_pos.mpr hd_pos)]
    norm_cast
  -- the quotient at the guess tells which of the two it is
  obtain ⟨e, he, he_high, he_low⟩ : ∃ e, (if n / d < Nat.pow 2 52 then guess - 1 else guess) = e ∧
      (num : ℚ) / den < 2 ^ 53 * 2 ^ e ∧ 2 ^ 52 * 2 ^ e ≤ (num : ℚ) / den := by
    have hhalf : (2 : ℚ) ^ (guess - 1) = 2 ^ guess / 2 := zpow_sub_one₀ two_ne_zero guess
    by_cases h : n / d < 2 ^ 52
    · refine ⟨guess - 1, if_pos h, ?_, ?_⟩
      · have := hless.mp h
        rw [hhalf]
        linarith
      · rw [hhalf]
        linarith
    · exact ⟨guess, if_neg h, hhigh, not_lt.mp fun hlt => h (hless.mpr hlt)⟩
  simp only [hscale, he]
  refine ⟨le_max_right _ _, he_high.trans_le ?_, fun hmax => ?_⟩
  · have hpow : (2 : ℚ) ^ e ≤ 2 ^ max e leastExponent :=
      zpow_le_zpow_right₀ one_le_two (le_max_left _ _)
    linarith
  · have hmax_eq : max e leastExponent = e := by omega
    rw [hmax_eq]
    exact he_low

theorem exponentFor_eq {num den : ℕ} (hn : 0 < num) (hd : 0 < den) {e : ℤ}
    (he : leastExponent ≤ e) (hhigh : (num : ℚ) / den < 2 ^ 53 * 2 ^ e)
    (hlow : leastExponent < e → 2 ^ 52 * 2 ^ e ≤ (num : ℚ) / den) : exponentFor num den = e := by
  obtain ⟨hleast, hhigh', hlow'⟩ := exponentFor_spec hn hd
  exact unit_unique hhigh' hhigh hlow' hlow hleast he

/-! ### To the nearest double -/

/-- The form in which a double has one representation only. -/
def IsCanonical : Double → Prop
  | .finite _ m e =>
    m < 2 ^ 53 ∧ leastExponent ≤ e ∧ e ≤ greatestExponent ∧ (leastExponent < e → 2 ^ 52 ≤ m)
  | .infinite _ => True

/-- How far the midpoint below a double is, in units of its last place. Where the unit changes it is
half as far. -/
def gapBelow (m : ℕ) (e : ℤ) : ℚ :=
  if m = 2 ^ 52 ∧ leastExponent < e then 1 / 4 else 1 / 2

theorem gapBelow_cases (m : ℕ) (e : ℤ) :
    (m = 2 ^ 52 ∧ leastExponent < e ∧ gapBelow m e = 1 / 4) ∨
      ((leastExponent < e → m ≠ 2 ^ 52) ∧ gapBelow m e = 1 / 2) := by
  unfold gapBelow
  split
  · next h => exact .inl ⟨h.1, h.2, rfl⟩
  · next h => exact .inr ⟨fun he hm => h ⟨hm, he⟩, rfl⟩

structure RoundsTo (x : ℚ) (m : ℕ) (e : ℤ) : Prop where
  low : (m - gapBelow m e) * 2 ^ e ≤ x
  high : x ≤ (m + 1 / 2) * 2 ^ e
  even : x = (m - gapBelow m e) * 2 ^ e ∨ x = (m + 1 / 2) * 2 ^ e → m % 2 = 0

variable {x : ℚ} {negative : Bool} {m : ℕ} {e : ℤ}

theorem RoundsTo.lt (h : RoundsTo x m e) (hm : m < 2 ^ 53) : x < 2 ^ 53 * 2 ^ e := by
  have hpow : (0 : ℚ) < 2 ^ e := by positivity
  have hm' : (m : ℚ) + 1 ≤ 2 ^ 53 := by exact_mod_cast hm
  calc x ≤ (m + 1 / 2) * 2 ^ e := h.high
    _ < 2 ^ 53 * 2 ^ e := by
      apply mul_lt_mul_of_pos_right _ hpow
      linarith

theorem RoundsTo.half_le (h : RoundsTo x m e) (hm : m ≠ 0) : 1 / 2 * 2 ^ e ≤ x := by
  have hm' : (1 : ℚ) ≤ m := by exact_mod_cast Nat.one_le_iff_ne_zero.mpr hm
  have hgap : gapBelow m e ≤ 1 / 2 := by
    rcases gapBelow_cases m e with ⟨-, -, hgap⟩ | ⟨-, hgap⟩ <;> rw [hgap]
    norm_num
  refine le_trans ?_ h.low
  apply mul_le_mul_of_nonneg_right _ (by positivity)
  linarith

theorem RoundsTo.pos (h : RoundsTo x m e) (hm : m ≠ 0) : 0 < x := by
  have hpow : (0 : ℚ) < 2 ^ e := by positivity
  have hhalf := h.half_le hm
  linarith

theorem RoundsTo.digits_ne_zero {digits : ℕ} {exponent : ℤ} (h : RoundsTo (digits * 10 ^ exponent) m e)
    (hm : m ≠ 0) : digits ≠ 0 := by
  rintro rfl
  have hpos := h.pos hm
  rw [Nat.cast_zero, zero_mul] at hpos
  exact lt_irrefl _ hpos

theorem RoundsTo.nearestEven (h : RoundsTo x m e) (hx : leastExponent < e → 2 ^ 52 * 2 ^ e ≤ x) :
    NearestEven (x / 2 ^ e) m := by
  have hpow : (0 : ℚ) < 2 ^ e := by positivity
  have hhigh : x / 2 ^ e ≤ m + 1 / 2 := (div_le_iff₀ hpow).mpr h.high
  rcases gapBelow_cases m e with ⟨rfl, he, -⟩ | ⟨-, hgap⟩
  · refine ⟨?_, hhigh, fun _ => rfl⟩
    have hlow : (2 : ℚ) ^ 52 ≤ x / 2 ^ e := (le_div_iff₀ hpow).mpr (hx he)
    push_cast
    linarith
  · obtain ⟨hlow, -, heven⟩ := h
    rw [hgap] at hlow heven
    refine ⟨(le_div_iff₀ hpow).mpr hlow, hhigh, fun hx => heven ?_⟩
    rw [div_eq_iff hpow.ne', div_eq_iff hpow.ne'] at hx
    exact hx

theorem RoundsTo.of_lt (h : RoundsTo x m e) (hm : leastExponent < e → 2 ^ 52 ≤ m)
    (he : leastExponent < e) (hx : x < 2 ^ 52 * 2 ^ e) :
    m = 2 ^ 52 ∧ (2 ^ 52 - 1 / 4) * 2 ^ e ≤ x := by
  have hpow : (0 : ℚ) < 2 ^ e := by positivity
  have hlt : (m : ℚ) - gapBelow m e < 2 ^ 52 :=
    lt_of_mul_lt_mul_right (h.low.trans_lt hx) hpow.le
  rcases gapBelow_cases m e with ⟨rfl, -, hgap⟩ | ⟨hne, hgap⟩
  · refine ⟨rfl, ?_⟩
    have hlow := h.low
    rw [hgap] at hlow
    exact_mod_cast hlow
  · have hmore : 2 ^ 52 + 1 ≤ m := Nat.lt_of_le_of_ne (hm he) (hne he).symm
    have hmore' : (2 : ℚ) ^ 52 + 1 ≤ m := by exact_mod_cast hmore
    rw [hgap] at hlt
    linarith

theorem ofRatio_eq {num den : ℕ} (hd : 0 < den) (hc : IsCanonical (.finite negative m e))
    (hm : m ≠ 0) (h : RoundsTo (num / den) m e) :
    ofRatio negative num den = .finite negative m e := by
  obtain ⟨hm_high, he_low, he_high, hm_low⟩ := hc
  have hpow : (0 : ℚ) < 2 ^ e := by positivity
  have hnum : 0 < num := by
    have hratio := h.pos hm
    exact Nat.cast_pos.mp ((div_pos_iff_of_pos_right (Nat.cast_pos.mpr hd)).mp hratio)
  unfold ofRatio
  rw [if_neg hnum.ne']
  by_cases hbinade : leastExponent < e → 2 ^ 52 * 2 ^ e ≤ (num : ℚ) / den
  · have hexp := exponentFor_eq hnum hd he_low (h.lt hm_high) hbinade
    obtain ⟨n, d, hscale, hd_pos, hratio⟩ := scale_spec num hd e
    have hround : roundQuotient n d = m :=
      roundQuotient_eq hd_pos (hratio ▸ h.nearestEven hbinade)
    have hcarry : m ≠ Nat.pow 2 53 := hm_high.ne
    simp only [hexp, hscale, hround]
    rw [if_neg hcarry]
    simp only
    rw [if_neg (not_lt.mpr he_high), if_neg hm]
  · -- below a power of two the unit is half as large, and the quotient is rounded up to a carry
    obtain ⟨he, hlt⟩ : leastExponent < e ∧ (num : ℚ) / den < 2 ^ 52 * 2 ^ e := by
      push Not at hbinade
      exact hbinade
    obtain ⟨rfl, hlow⟩ := h.of_lt hm_low he hlt
    have hhalf : (2 : ℚ) ^ (e - 1) = 2 ^ e / 2 := zpow_sub_one₀ two_ne_zero e
    have hexp : exponentFor num den = e - 1 := by
      refine exponentFor_eq hnum hd (Int.le_sub_one_of_lt he) ?_ fun _ => ?_
      · rw [hhalf]
        linarith
      · rw [hhalf]
        linarith
    obtain ⟨n, d, hscale, hd_pos, hratio⟩ := scale_spec num hd (e - 1)
    have hround : roundQuotient n d = Nat.pow 2 53 := by
      refine roundQuotient_eq hd_pos ⟨?_, ?_, fun _ => rfl⟩
      · rw [hratio, hhalf, le_div_iff₀ (by positivity)]
        norm_num
        linarith
      · rw [hratio, hhalf, div_le_iff₀ (by positivity)]
        norm_num
        linarith
    have he_high' : ¬ greatestExponent < e - 1 + 1 := by omega
    simp only [hexp, hscale, hround, if_true]
    rw [if_neg he_high', sub_add_cancel]
    rfl

/-! ### Decimals -/

theorem length_toDigits_spec {n : ℕ} (hn : n ≠ 0) :
    (10 : ℚ) ^ (((Nat.toDigits 10 n).length : ℤ) - 1) ≤ n ∧
      (n : ℚ) < 10 ^ ((Nat.toDigits 10 n).length : ℤ) := by
  have hpos : 0 < (Nat.toDigits 10 n).length := List.length_pos_of_ne_nil Nat.toDigits_ne_nil
  have hiff {k : ℕ} (hk : 0 < k) := Nat.length_toDigits_le_iff (b := 10) (n := n) (by decide) hk
  generalize (Nat.toDigits 10 n).length = k at *
  obtain ⟨l, rfl⟩ := Nat.exists_eq_add_one_of_ne_zero hpos.ne'
  constructor
  · rw [Nat.cast_succ, add_sub_cancel_right, zpow_natCast]
    rcases Nat.eq_zero_or_pos l with rfl | hl
    · exact_mod_cast Nat.one_le_iff_ne_zero.mpr hn
    · have hlt : ¬ n < 10 ^ l := fun h => absurd ((hiff hl).mpr h) (Nat.not_succ_le_self l)
      exact_mod_cast not_lt.mp hlt
  · rw [zpow_natCast]
    exact_mod_cast (hiff hpos).mp le_rfl

theorem pow_mul_pow_lt {a b c : ℕ} (h : 2 ^ a * 2 ^ b < 10 ^ c) :
    (2 : ℚ) ^ (a : ℤ) * 2 ^ (b : ℤ) < 10 ^ (c : ℤ) := by
  rw [zpow_natCast, zpow_natCast, zpow_natCast]
  exact_mod_cast h

theorem RoundsTo.magnitude (h : RoundsTo x m e) (hc : IsCanonical (.finite negative m e))
    (hm : m ≠ 0) {k : ℤ} (hlow : 10 ^ (k - 1) ≤ x) (hhigh : x < 10 ^ k) :
    ¬ 310 < k ∧ ¬ k < -330 := by
  obtain ⟨hm_high, he_low, he_high, -⟩ := hc
  constructor
  · intro hlarge
    have hexp : (10 : ℚ) ^ (310 : ℤ) ≤ 10 ^ (k - 1) :=
      zpow_le_zpow_right₀ (by norm_num) (by omega)
    have hgreatest : (2 : ℚ) ^ e ≤ 2 ^ greatestExponent := zpow_le_zpow_right₀ one_le_two he_high
    have hbound : (2 : ℚ) ^ (53 : ℤ) * 2 ^ greatestExponent < 10 ^ (310 : ℤ) :=
      pow_mul_pow_lt (a := 53) (b := 971) (c := 310) (by decide +kernel)
    have hlt : x < 2 ^ (53 : ℤ) * 2 ^ e := h.lt hm_high
    linarith
  · intro hsmall
    have hexp : (10 : ℚ) ^ k ≤ 10 ^ (-331 : ℤ) :=
      zpow_le_zpow_right₀ (by norm_num) (by omega)
    have hleast : (2 : ℚ) ^ leastExponent ≤ 2 ^ e := zpow_le_zpow_right₀ one_le_two he_low
    have hbound : (10 : ℚ) ^ (-331 : ℤ) < 1 / 2 * 2 ^ leastExponent := by
      have hinv : (2 : ℚ) ^ (1 : ℤ) * 2 ^ (1074 : ℤ) < 10 ^ (331 : ℤ) :=
        pow_mul_pow_lt (a := 1) (b := 1074) (c := 331) (by decide +kernel)
      rw [leastExponent, zpow_neg, zpow_neg, one_div, ← mul_inv]
      exact inv_strictAnti₀ (by positivity) hinv
    have hhalf := h.half_le hm
    linarith

theorem ofDecimal_eq {digits : ℕ} {exponent : ℤ} (hc : IsCanonical (.finite negative m e))
    (hm : m ≠ 0) (h : RoundsTo (digits * 10 ^ exponent) m e) :
    ofDecimal negative digits exponent = .finite negative m e := by
  have hten : (0 : ℚ) < 10 ^ exponent := by positivity
  have hdigits := h.digits_ne_zero hm
  obtain ⟨hlow, hhigh⟩ := length_toDigits_spec hdigits
  unfold ofDecimal
  rw [if_neg hdigits]
  generalize ((Nat.toDigits 10 digits).length : ℤ) = k at *
  have hmagnitude_low : (10 : ℚ) ^ (k + exponent - 1) ≤ digits * 10 ^ exponent := by
    rw [add_sub_right_comm, zpow_add₀ (by norm_num)]
    exact mul_le_mul_of_nonneg_right hlow hten.le
  have hmagnitude_high : digits * 10 ^ exponent < (10 : ℚ) ^ (k + exponent) := by
    rw [zpow_add₀ (by norm_num)]
    exact mul_lt_mul_of_pos_right hhigh hten
  -- its magnitude is within the range that is divided out
  obtain ⟨hlarge, hsmall⟩ := h.magnitude hc hm hmagnitude_low hmagnitude_high
  simp only [if_neg hlarge, if_neg hsmall]
  split
  · next he =>
    obtain ⟨n, rfl⟩ := Int.eq_ofNat_of_zero_le he
    refine ofRatio_eq Nat.one_pos hc hm ?_
    push_cast
    rw [zpow_natCast] at h
    simpa using h
  · next he =>
    obtain ⟨n, hn⟩ := Int.eq_ofNat_of_zero_le (Int.neg_nonneg_of_nonpos (Int.not_le.mp he).le)
    obtain rfl : exponent = -n := by omega
    refine ofRatio_eq (Nat.pow_pos (by decide)) hc hm ?_
    rw [zpow_neg, zpow_natCast, ← div_eq_mul_inv] at h
    simpa using h

end FilterTree.Double
