import Mathlib.Data.Nat.Cast.Order.Field
import FilterTree.Number.Decimal
import FilterTree.Proofs.Number.Rounding

/-! The digits that a double is printed with. Whatever digits are chosen round back to it, and
seventeen of them always do. -/

namespace FilterTree.Double

theorem power_spec {b : ℕ} (hb : 0 < b) (u : ℤ) : ∃ p q : ℕ,
    (if 0 ≤ u then (Nat.pow b u.toNat, 1) else (1, Nat.pow b (-u).toNat)) = (p, q) ∧
      0 < p ∧ 0 < q ∧ (p : ℚ) / q = (b : ℚ) ^ u := by
  have hpow (k : ℕ) : 0 < b ^ k := Nat.pow_pos hb
  split
  · next hu =>
    obtain ⟨k, rfl⟩ := Int.eq_ofNat_of_zero_le hu
    refine ⟨b ^ k, 1, rfl, hpow k, Nat.one_pos, ?_⟩
    rw [Nat.cast_one, div_one, zpow_natCast, Nat.cast_pow]
  · next hu =>
    obtain ⟨k, hk⟩ := Int.eq_ofNat_of_zero_le (Int.neg_nonneg_of_nonpos (Int.not_le.mp hu).le)
    obtain rfl : u = -k := by omega
    refine ⟨1, b ^ k, ?_, Nat.one_pos, hpow k, ?_⟩
    · rw [neg_neg]
      rfl
    · rw [zpow_neg, zpow_natCast, Nat.cast_one, Nat.cast_pow, one_div]

theorem interval_spec {m : ℕ} (hm : m ≠ 0) (e : ℤ) : ∃ lower value upper den : ℕ,
    interval m e = (lower, value, upper, den) ∧ 0 < den ∧
      (lower : ℚ) / den = (m - gapBelow m e) * 2 ^ e ∧ (value : ℚ) / den = m * 2 ^ e ∧
      (upper : ℚ) / den = (m + 1 / 2) * 2 ^ e := by
  -- in quarters of the unit both gaps are whole
  obtain ⟨f, d, hpair, -, hd, hunit⟩ := power_spec two_pos (e - 2)
  have hswitch : (if 2 ≤ e then (Nat.pow 2 (e - 2).toNat, 1) else (1, Nat.pow 2 (2 - e).toNat)) =
      (f, d) := by
    rw [← hpair, neg_sub]
    simp only [sub_nonneg]
  obtain ⟨below, hbelow, hle, hgap⟩ : ∃ below,
      (if m = Nat.pow 2 52 ∧ leastExponent < e then 1 else 2) = below ∧ below ≤ 4 * m ∧
        (below : ℚ) = 4 * gapBelow m e := by
    unfold gapBelow
    by_cases h : m = 2 ^ 52 ∧ leastExponent < e
    · refine ⟨1, if_pos h, by omega, ?_⟩
      rw [if_pos h]
      norm_num
    · refine ⟨2, if_neg h, by omega, ?_⟩
      rw [if_neg h]
      norm_num
  have hquarter : (f : ℚ) / d = 2 ^ e / 4 := by
    rw [hunit, Nat.cast_ofNat, zpow_sub₀ two_ne_zero]
    norm_num
  refine ⟨(4 * m - below) * f, 4 * m * f, (4 * m + 2) * f, d, ?_, hd, ?_, ?_, ?_⟩
  · simp only [interval, hswitch, hbelow]
  · rw [Nat.cast_mul, mul_div_assoc, hquarter, Nat.cast_sub hle, hgap]
    push_cast
    ring
  · rw [Nat.cast_mul, mul_div_assoc, hquarter]
    push_cast
    ring
  · rw [Nat.cast_mul, mul_div_assoc, hquarter]
    push_cast
    ring

/-! ### On a grid -/

variable {even : Bool} {lower value upper den : ℕ} {u : ℤ}

def between (even : Bool) (lower upper x : ℕ) : Bool :=
  if even then decide (lower ≤ x ∧ x ≤ upper) else decide (lower < x ∧ x < upper)

theorem le_of_between {x : ℕ} (h : between even lower upper x = true) :
    lower ≤ x ∧ x ≤ upper ∧ (even = false → lower < x ∧ x < upper) := by
  unfold between at h
  cases even with
  | true =>
    obtain ⟨hlow, hhigh⟩ := of_decide_eq_true h
    exact ⟨hlow, hhigh, nofun⟩
  | false =>
    have hstrict := of_decide_eq_true h
    exact ⟨hstrict.1.le, hstrict.2.le, fun _ => hstrict⟩

theorem between_of_lt {x : ℕ} (hlow : lower < x) (hhigh : x < upper) :
    between even lower upper x = true := by
  cases even with
  | true => exact decide_eq_true ⟨hlow.le, hhigh.le⟩
  | false => exact decide_eq_true ⟨hlow, hhigh⟩

theorem roundQuotient_error (n : ℕ) {d : ℕ} (hd : 0 < d) :
    2 * n ≤ 2 * (roundQuotient n d * d) + d ∧ 2 * (roundQuotient n d * d) ≤ 2 * n + d := by
  have hr : n % d < d := Nat.mod_lt n hd
  have hn : n / d * d + n % d = n := Nat.div_add_mod' n d
  unfold roundQuotient
  dsimp only
  generalize n / d = k at *
  generalize n % d = r at *
  have hsucc : (k + 1) * d = k * d + d := Nat.succ_mul k d
  split_ifs
  · omega
  · rw [hsucc]
    omega
  · omega
  · rw [hsucc]
    omega

theorem onGrid?_eq (even : Bool) (lower value upper den : ℕ) {p q : ℕ}
    (hpair : (if 0 ≤ u then (Nat.pow 10 u.toNat, 1) else (1, Nat.pow 10 (-u).toNat)) = (p, q)) :
    ∃ other, onGrid? even lower value upper den u =
      if between even (lower * q) (upper * q) (roundQuotient (value * q) (den * p) * (den * p))
      then some (roundQuotient (value * q) (den * p))
      else if between even (lower * q) (upper * q) (other * (den * p)) then some other
      else none := by
  have hfirst : (if 2 * (value * q % (den * p)) < den * p ∨
      2 * (value * q % (den * p)) = den * p ∧ value * q / (den * p) % 2 = 0
      then value * q / (den * p) else value * q / (den * p) + 1) =
      roundQuotient (value * q) (den * p) := by
    unfold roundQuotient
    dsimp only
    split_ifs <;> omega
  unfold onGrid?
  simp only [hpair, hfirst]
  exact ⟨_, rfl⟩

/-- What is chosen lies in the interval, at an end of it only if these belong to it. -/
theorem onGrid?_sound (hden : 0 < den) {c : ℕ}
    (h : onGrid? even lower value upper den u = some c) :
    (lower : ℚ) / den ≤ c * 10 ^ u ∧ (c : ℚ) * 10 ^ u ≤ upper / den ∧
      (even = false → (lower : ℚ) / den < c * 10 ^ u ∧ (c : ℚ) * 10 ^ u < upper / den) := by
  obtain ⟨p, q, hpair, -, hq, hunit⟩ := power_spec (b := 10) (by decide) u
  obtain ⟨other, hgrid⟩ := onGrid?_eq even lower value upper den hpair
  have hdenq : (0 : ℚ) < den := Nat.cast_pos.mpr hden
  have hqq : (0 : ℚ) < q := Nat.cast_pos.mpr hq
  -- whichever neighbour is taken has been found to lie in the interval
  have hchosen : between even (lower * q) (upper * q) (c * (den * p)) = true := by
    rw [hgrid] at h
    split_ifs at h with hnear hother
    · cases h
      exact hnear
    · cases h
      exact hother
  obtain ⟨hlow, hhigh, hstrict⟩ := le_of_between hchosen
  have hpoint : (c : ℚ) * 10 ^ u = c * p / q := by
    rw [mul_div_assoc, hunit, Nat.cast_ofNat]
  rw [hpoint, div_le_div_iff₀ hdenq hqq, div_le_div_iff₀ hqq hdenq, div_lt_div_iff₀ hdenq hqq,
    div_lt_div_iff₀ hqq hdenq]
  have hcomm : (c : ℚ) * p * den = c * (den * p) := by ring
  rw [hcomm]
  refine ⟨?_, ?_, fun heven => ⟨?_, ?_⟩⟩
  · exact_mod_cast hlow
  · exact_mod_cast hhigh
  · exact_mod_cast (hstrict heven).1
  · exact_mod_cast (hstrict heven).2

theorem onGrid?_complete (even : Bool) (hden : 0 < den)
    (hlow : (lower : ℚ) / den + 10 ^ u / 2 < value / den)
    (hhigh : (value : ℚ) / den + 10 ^ u / 2 < upper / den) :
    ∃ c, onGrid? even lower value upper den u = some c := by
  obtain ⟨p, q, hpair, hp, hq, hunit⟩ := power_spec (b := 10) (by decide) u
  obtain ⟨other, hgrid⟩ := onGrid?_eq even lower value upper den hpair
  obtain ⟨herror_low, herror_high⟩ := roundQuotient_error (value * q) (Nat.mul_pos hden hp)
  have hdenq : (0 : ℚ) < den := Nat.cast_pos.mpr hden
  have hqq : (0 : ℚ) < q := Nat.cast_pos.mpr hq
  rw [Nat.cast_ofNat] at hunit
  rw [← hunit] at hlow hhigh
  have hcleared {a b : ℕ} (h : (a : ℚ) / den + p / q / 2 < b / den) :
      2 * (a * q) + den * p < 2 * (b * q) := by
    have hsum : (a : ℚ) / den + p / q / 2 = (a * (2 * q) + den * p) / (2 * q) / den := by
      field_simp
    rw [hsum, div_lt_div_iff_of_pos_right hdenq, div_lt_iff₀ (by positivity)] at h
    have hnat : a * (2 * q) + den * p < b * (2 * q) := by exact_mod_cast h
    rwa [mul_left_comm, mul_left_comm b] at hnat
  have hlow' := hcleared hlow
  have hhigh' := hcleared hhigh
  -- the nearest point of the grid is at most half a step away, and so still inside
  have hnear : between even (lower * q) (upper * q)
      (roundQuotient (value * q) (den * p) * (den * p)) = true :=
    between_of_lt (by omega) (by omega)
  exact ⟨_, by rw [hgrid, if_pos hnear]⟩

/-! ### Seventeen digits -/

theorem leadingExponent_spec {num : ℕ} (hn : 0 < num) (hd : 0 < den) :
    (10 : ℚ) ^ leadingExponent num den ≤ num / den := by
  have hnq : (0 : ℚ) < num := Nat.cast_pos.mpr hn
  have hdq : (0 : ℚ) < den := Nat.cast_pos.mpr hd
  unfold leadingExponent
  split
  · next hle =>
    have hquotient : num / den ≠ 0 := (Nat.div_pos hle hd).ne'
    exact (length_toDigits_spec hquotient).1.trans Nat.cast_div_le
  · next hlt =>
    have hquotient : den / num ≠ 0 := (Nat.div_pos (Nat.le_of_not_le hlt) hn).ne'
    have hhigh := (length_toDigits_spec hquotient).2
    rw [zpow_natCast] at hhigh
    have hden : den < 10 ^ (Nat.toDigits 10 (den / num)).length * num :=
      (Nat.div_lt_iff_lt_mul hn).mp (by exact_mod_cast hhigh)
    rw [zpow_neg, zpow_natCast, ← one_div, div_le_div_iff₀ (by positivity) hdq, one_mul, mul_comm]
    exact_mod_cast hden.le

variable {m : ℕ} {e : ℤ}

theorem half_step_lt (hm : m < 2 ^ 53) {u : ℤ} (hu : (10 : ℚ) ^ (u + 16) ≤ m * 2 ^ e) :
    (10 : ℚ) ^ u / 2 < gapBelow m e * 2 ^ e ∧ (10 : ℚ) ^ u / 2 < 1 / 2 * 2 ^ e := by
  have hpow : (0 : ℚ) < 2 ^ e := by positivity
  have hm' : (m : ℚ) < 2 ^ 53 := by exact_mod_cast hm
  have hbound : (m : ℚ) * 2 ^ e < 2 ^ 53 * 2 ^ e := mul_lt_mul_of_pos_right hm' hpow
  rw [zpow_add₀ (by norm_num)] at hu
  norm_num at hu hbound
  constructor
  · rcases gapBelow_cases m e with ⟨rfl, -, hgap⟩ | ⟨-, hgap⟩
    · rw [hgap]
      push_cast at hu
      linarith
    · rw [hgap]
      linarith
  · linarith

theorem exists_seventeen (even : Bool) (hm : m ≠ 0) (hm_high : m < 2 ^ 53) (hden : 0 < den)
    (hlower : (lower : ℚ) / den = (m - gapBelow m e) * 2 ^ e)
    (hvalue : (value : ℚ) / den = m * 2 ^ e) (hupper : (upper : ℚ) / den = (m + 1 / 2) * 2 ^ e) :
    ∃ c, onGrid? even lower value upper den (leadingExponent value den - 16) = some c := by
  have hvalue_pos : 0 < value := by
    have hm_pos : (0 : ℚ) < m := Nat.cast_pos.mpr (Nat.pos_of_ne_zero hm)
    have hratio : (0 : ℚ) < value / den := by
      rw [hvalue]
      positivity
    exact Nat.cast_pos.mp ((div_pos_iff_of_pos_right (Nat.cast_pos.mpr hden)).mp hratio)
  have hleading := leadingExponent_spec hvalue_pos hden
  generalize leadingExponent value den = k at *
  have hstep : (10 : ℚ) ^ (k - 16 + 16) ≤ m * 2 ^ e := by
    rw [sub_add_cancel, ← hvalue]
    exact hleading
  obtain ⟨hbelow, habove⟩ := half_step_lt hm_high hstep
  apply onGrid?_complete even hden
  · rw [hlower, hvalue]
    linarith
  · rw [hvalue, hupper]
    linarith

/-- The digits round back to the double. -/
theorem shortest_spec (hm : m ≠ 0) (hm_high : m < 2 ^ 53) (e : ℤ) :
    ∃ d u, shortest m e = (d, u) ∧ RoundsTo (d * 10 ^ u) m e := by
  obtain ⟨lower, value, upper, den, hinterval, hden, hlower, hvalue, hupper⟩ := interval_spec hm e
  obtain ⟨c, hlast⟩ :=
    exists_seventeen (decide (m % 2 = 0)) hm hm_high hden hlower hvalue hupper
  unfold shortest
  simp only [hinterval]
  generalize leadingExponent value den = k at *
  set f : ℕ → Option (ℕ × ℤ) := fun i =>
    (onGrid? (decide (m % 2 = 0)) lower value upper den (k - ↑(i + 1) + 1)).map
      (·, k - ↑(i + 1) + 1) with hf
  -- the search ends at the latest with seventeen digits
  have hsome : f 16 = some (c, k - 16) := by
    have hexp : k - ((16 + 1 : ℕ) : ℤ) + 1 = k - 16 := by
      push_cast
      ring
    rw [hf]
    dsimp only
    rw [hexp, hlast]
    rfl
  cases hfound : (List.range 17).findSome? f with
  | none =>
    have hnone := List.findSome?_eq_none_iff.mp hfound 16 (by decide)
    rw [hsome] at hnone
    cases hnone
  | some r =>
    -- whichever length was enough, its digits lie in the interval
    obtain ⟨i, -, hi⟩ := List.exists_of_findSome?_eq_some hfound
    obtain ⟨d, hd, rfl⟩ := Option.map_eq_some_iff.mp hi
    refine ⟨d, _, rfl, ?_⟩
    obtain ⟨hlow, hhigh, hstrict⟩ := onGrid?_sound hden hd
    rw [hlower, hupper] at *
    refine ⟨hlow, hhigh, fun hends => ?_⟩
    by_contra hodd
    have hinner := hstrict (decide_eq_false hodd)
    rcases hends with hend | hend
    · exact hinner.1.ne' hend
    · exact hinner.2.ne hend

end FilterTree.Double
