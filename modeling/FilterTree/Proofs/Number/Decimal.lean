import Mathlib.Algebra.Field.Rat
import Mathlib.Tactic.FieldSimp
import FilterTree.Json.Reader
import FilterTree.Proofs.Text.Numeral

/-! The shape of the decimal text of a double. Whoever reads it by its parts gets the same digits
and the same exponent. -/

namespace FilterTree

/-- Digits before the point, digits after it, and an exponent that may be negative. There is no
leading zero before another digit. -/
structure Decimal where
  whole : List Char
  fraction : List Char
  exponent : Option (Bool × List Char)
  isDigit_whole : ∀ c ∈ whole, c.isDigit = true
  whole_ne : whole ≠ []
  whole_zero : whole.head? = some '0' → whole = ['0']
  isDigit_fraction : ∀ c ∈ fraction, c.isDigit = true
  isDigit_exponent : ∀ e ∈ exponent, e.2 ≠ [] ∧ ∀ c ∈ e.2, c.isDigit = true

namespace Decimal

def fractionText (d : Decimal) : List Char :=
  if d.fraction.isEmpty then [] else '.' :: d.fraction

def exponentText (d : Decimal) : List Char :=
  match d.exponent with
  | none => []
  | some (down, digits) => 'e' :: (if down then '-' else '+') :: digits

def text (d : Decimal) : List Char :=
  d.whole ++ (d.fractionText ++ d.exponentText)

def exponentValue (d : Decimal) : Option Int :=
  d.exponent.map fun (down, digits) =>
    if down then -(digitsValue digits : Int) else (digitsValue digits : Int)

def value (d : Decimal) (negative : Bool) : Double :=
  .ofDecimal negative (digitsValue (d.whole ++ d.fraction))
    (d.exponentValue.getD 0 - d.fraction.length)

def amount (d : Decimal) : ℚ :=
  digitsValue (d.whole ++ d.fraction) * 10 ^ (d.exponentValue.getD 0 - d.fraction.length)

theorem value_of_amount_eq_zero (d : Decimal) {negative : Bool} (h : d.amount = 0) :
    d.value negative = .zero negative := by
  have hpower : (10 : ℚ) ^ (d.exponentValue.getD 0 - d.fraction.length) ≠ 0 :=
    zpow_ne_zero _ (by norm_num)
  have hdigits : digitsValue (d.whole ++ d.fraction) = 0 :=
    Nat.cast_eq_zero.mp ((mul_eq_zero.mp h).resolve_right hpower)
  rw [value, Double.ofDecimal, if_pos hdigits]

theorem exists_text_cons (d : Decimal) : ∃ c tail, d.text = c :: tail ∧ c.isDigit = true := by
  obtain ⟨c, more, hwhole⟩ := List.exists_cons_of_ne_nil d.whole_ne
  have hc : c ∈ d.whole := hwhole ▸ List.mem_cons_self
  refine ⟨c, more ++ (d.fractionText ++ d.exponentText), ?_, d.isDigit_whole c hc⟩
  rw [text, hwhole, List.cons_append]

abbrev Ended (rest : List Char) : Prop :=
  BeginsWithout (fun c => c.isDigit || c == '.' || c == 'e' || c == 'E') rest

theorem Ended.isDigit {rest : List Char} (h : Ended rest) : BeginsWithout Char.isDigit rest := by
  intro c hc
  have := h c hc
  simp_all

theorem exponentText_of_none {d : Decimal} (h : d.exponent = none) : d.exponentText = [] := by
  simp [exponentText, h]

theorem exponentText_of_some {d : Decimal} {down : Bool} {digits : List Char}
    (h : d.exponent = some (down, digits)) :
    d.exponentText = 'e' :: (if down then '-' else '+') :: digits := by
  simp [exponentText, h]

theorem beginsWithout_exponentText (d : Decimal) {rest : List Char} (h : Ended rest) :
    BeginsWithout Char.isDigit (d.exponentText ++ rest) := by
  unfold exponentText
  split
  · exact h.isDigit
  · exact .cons rfl _

theorem beginsWithout_fractionText (d : Decimal) {rest : List Char} (h : Ended rest) :
    BeginsWithout Char.isDigit (d.fractionText ++ (d.exponentText ++ rest)) := by
  unfold fractionText
  split
  · exact d.beginsWithout_exponentText h
  · exact .cons rfl _

theorem exponent?_exponentText (d : Decimal) {rest : List Char} (h : Ended rest) :
    Json.exponent? (d.exponentText ++ rest) = (d.exponentValue, rest) := by
  unfold exponentText exponentValue
  cases he : d.exponent with
  | none =>
    cases rest with
    | nil => rfl
    | cons c rest =>
      have hc := h c rfl
      have hmark : ¬ (c = 'e' ∨ c = 'E') := by
        rintro (rfl | rfl) <;> simp at hc
      simp [Json.exponent?, hmark]
  | some e =>
    obtain ⟨down, digits⟩ := e
    obtain ⟨hne, hdigits⟩ := d.isDigit_exponent _ he
    have htake := h.isDigit.takeWhile_append hdigits
    have hdrop := h.isDigit.dropWhile_append hdigits
    cases down <;> simp [Json.exponent?, htake, hdrop, hne]

theorem fractionDigits_of_ne {cs : List Char} (h : cs.head? ≠ some '.') :
    Json.fractionDigits cs = ([], cs) := by
  unfold Json.fractionDigits
  split
  · exact absurd rfl h
  · rfl

theorem head?_exponentText (d : Decimal) {rest : List Char} (h : Ended rest) :
    (d.exponentText ++ rest).head? ≠ some '.' := by
  unfold exponentText
  split
  · intro hhead
    have hpoint := h '.' hhead
    cases hpoint
  · simp

theorem fractionDigits_fractionText (d : Decimal) {rest : List Char} (h : Ended rest) :
    Json.fractionDigits (d.fractionText ++ (d.exponentText ++ rest)) =
      (d.fraction, d.exponentText ++ rest) := by
  unfold fractionText
  cases hf : d.fraction with
  | nil => exact fractionDigits_of_ne (d.head?_exponentText h)
  | cons c more =>
    have hall := d.isDigit_fraction
    rw [hf] at hall
    have hmore : ∀ c ∈ more, c.isDigit = true := fun x hx => hall x (List.mem_cons_of_mem c hx)
    have hafter := d.beginsWithout_exponentText h
    simp [Json.fractionDigits, hall c List.mem_cons_self, hafter.takeWhile_append hmore,
      hafter.dropWhile_append hmore]

theorem readNumber_text (d : Decimal) (negative : Bool) (start : List Char) {rest : List Char}
    (h : Ended rest) : Json.readNumber negative start (d.text ++ rest) =
      if d.fraction.isEmpty && d.exponentValue.isNone then
        if Json.digitLimit < d.whole.length then .error .tooManyDigits
        else
          .ok (.int (if negative then -(digitsValue d.whole : Int) else digitsValue d.whole), rest)
      else .ok (.float (d.value negative), rest) := by
  obtain ⟨c, more, hwhole⟩ := List.exists_cons_of_ne_nil d.whole_ne
  have hall := d.isDigit_whole
  rw [hwhole] at hall
  have hafter := d.beginsWithout_fractionText h
  have hmore : ∀ c ∈ more, c.isDigit = true := fun x hx => hall x (List.mem_cons_of_mem c hx)
  -- a leading zero ends the whole part at once, which is right as no digit stands behind it
  have htake : (if c = '0' then ['0'] else
      c :: (more ++ (d.fractionText ++ (d.exponentText ++ rest))).takeWhile Char.isDigit) =
      d.whole := by
    split
    · next hc =>
      have hzero := d.whole_zero
      rw [hwhole, hc] at hzero
      rw [hwhole, hc, hzero rfl]
    · rw [hafter.takeWhile_append hmore, hwhole]
  have hdrop : (if c = '0' then more ++ (d.fractionText ++ (d.exponentText ++ rest)) else
      (more ++ (d.fractionText ++ (d.exponentText ++ rest))).dropWhile Char.isDigit) =
      d.fractionText ++ (d.exponentText ++ rest) := by
    split
    · next hc =>
      have hzero := d.whole_zero
      rw [hwhole, hc] at hzero
      rw [(List.cons.inj (hzero rfl)).2]
      rfl
    · exact hafter.dropWhile_append hmore
  have htext : d.text ++ rest = c :: (more ++ (d.fractionText ++ (d.exponentText ++ rest))) := by
    simp [text, hwhole]
  rw [htext, Json.readNumber, if_pos (hall c List.mem_cons_self)]
  simp only [htake, hdrop, d.fractionDigits_fractionText h, d.exponent?_exponentText h]
  rfl

theorem unsigned?_text (d : Decimal) (negative : Bool) :
    Reading.unsigned? negative d.text = some (d.value negative) := by
  have hfraction : BeginsWithout Char.isDigit (d.fractionText ++ d.exponentText) := by
    simpa using d.beginsWithout_fractionText .nil
  have hexponent : BeginsWithout Char.isDigit d.exponentText := by
    simpa using d.beginsWithout_exponentText .nil
  have hwhole : d.text.takeWhile Char.isDigit = d.whole :=
    hfraction.takeWhile_append d.isDigit_whole
  have hrest : d.text.dropWhile Char.isDigit = d.fractionText ++ d.exponentText :=
    hfraction.dropWhile_append d.isDigit_whole
  have hpoint := hexponent.takeWhile_append d.isDigit_fraction
  have hmark := hexponent.dropWhile_append d.isDigit_fraction
  unfold Reading.unsigned? value exponentValue
  simp only [hwhole, hrest]
  -- the fraction and the exponent may both be missing
  cases hf : d.fraction with
  | nil =>
    have hnone : d.fractionText = [] := by simp [fractionText, hf]
    cases he : d.exponent with
    | none => simp [hnone, exponentText_of_none he, d.whole_ne]
    | some e =>
      obtain ⟨down, digits⟩ := e
      obtain ⟨hdigits_ne, hdigits⟩ := d.isDigit_exponent _ he
      cases down <;>
        simp [hnone, exponentText_of_some he, d.whole_ne, hdigits_ne, List.all_eq_true.mpr hdigits]
  | cons c more =>
    rw [hf] at hpoint hmark
    have hsome : d.fractionText = '.' :: c :: more := by simp [fractionText, hf]
    cases he : d.exponent with
    | none =>
      rw [exponentText_of_none he, List.append_nil] at hpoint hmark
      simp only [hsome, exponentText_of_none he, List.append_nil, hpoint, hmark]
      simp
    | some e =>
      obtain ⟨down, digits⟩ := e
      obtain ⟨hdigits_ne, hdigits⟩ := d.isDigit_exponent _ he
      rw [exponentText_of_some he] at hpoint hmark
      simp only [hsome, exponentText_of_some he, List.cons_append] at hpoint hmark ⊢
      simp only [hpoint, hmark]
      cases down <;> simp [hdigits_ne, List.all_eq_true.mpr hdigits]

theorem isDigit_of_mem_zero (c : Char) (h : c ∈ ['0']) : c.isDigit = true := by
  rw [List.mem_singleton.mp h]
  rfl

def IsFractional (d : Decimal) : Prop :=
  d.fraction ≠ [] ∨ d.exponent ≠ none

theorem exists_exponentText (e : Int) : ∃ digits : List Char,
    (Double.exponentText e).toList = 'e' :: (if e < 0 then '-' else '+') :: digits ∧
      digitsValue digits = e.natAbs ∧ digits ≠ [] ∧ ∀ c ∈ digits, c.isDigit = true := by
  have hall : ∀ c ∈ Nat.toDigits 10 e.natAbs, c.isDigit = true := fun c => isDigit_of_mem_toDigits
  unfold Double.exponentText
  by_cases hshort : (toString e.natAbs).length < 2
  · refine ⟨'0' :: Nat.toDigits 10 e.natAbs, ?_, ?_, List.cons_ne_nil _ _, ?_⟩
    · simp only [if_pos hshort]
      by_cases he : e < 0 <;> simp [he]
    · exact digitsValue_toDigits e.natAbs
    · intro c hc
      rcases List.mem_cons.mp hc with rfl | hc
      · rfl
      · exact hall c hc
  · refine ⟨Nat.toDigits 10 e.natAbs, ?_, digitsValue_toDigits e.natAbs, Nat.toDigits_ne_nil, hall⟩
    simp only [if_neg hshort]
    by_cases he : e < 0 <;> simp [he]

theorem exists_scientific {c : Char} (hc : c.isDigit = true) {more : List Char}
    (hmore : ∀ c ∈ more, c.isDigit = true) (e : Int) : ∃ d : Decimal,
    d.text = c :: ((if more.isEmpty then [] else '.' :: more) ++
      (Double.exponentText e).toList) ∧ d.IsFractional ∧
      d.amount = digitsValue (c :: more) * 10 ^ (e - more.length) := by
  obtain ⟨digits, htext, hvalue, hne, hdigits⟩ := exists_exponentText e
  refine ⟨⟨[c], more, some (decide (e < 0), digits), ?_, List.cons_ne_nil c [], ?_, hmore, ?_⟩, ?_,
    .inr (Option.some_ne_none _), ?_⟩
  · intro x hx
    rwa [List.mem_singleton.mp hx]
  · intro hzero
    rw [Option.some.inj hzero]
  · rintro _ ⟨⟩
    exact ⟨hne, hdigits⟩
  · rw [htext]
    simp [text, fractionText, exponentText]
  · have hsigned : (if e < 0 then -(digitsValue digits : Int) else digitsValue digits) = e := by
      rw [hvalue]
      split <;> omega
    simp [amount, exponentValue, hsigned]

theorem isDigit_of_mem_zeros {n : Nat} (c : Char) (h : c ∈ List.replicate n '0') :
    c.isDigit = true := by
  rw [List.eq_of_mem_replicate h]
  rfl

section Positional
variable {digits : List Char} (hall : ∀ c ∈ digits, c.isDigit = true)
  (hzero : digits.head? ≠ some '0') (hne : digits ≠ []) {point : Int}

include hall hne in
theorem exists_before (hpoint : point ≤ 0) : ∃ d : Decimal,
    d.text = '0' :: '.' :: (List.replicate (-point).toNat '0' ++ digits) ∧ d.IsFractional ∧
      d.amount = digitsValue digits * 10 ^ (point - digits.length) := by
  refine ⟨⟨['0'], List.replicate (-point).toNat '0' ++ digits, none, isDigit_of_mem_zero,
    List.cons_ne_nil _ _, fun _ => rfl, ?_, ?_⟩, ?_, .inl ?_, ?_⟩
  · exact fun c hc => (List.mem_append.mp hc).elim (isDigit_of_mem_zeros c) (hall c)
  · rintro _ ⟨⟩
  · simp [text, fractionText, exponentText, hne]
  · simp [hne]
  · have hvalue : digitsValue (['0'] ++ (List.replicate (-point).toNat '0' ++ digits)) =
        digitsValue digits := by
      rw [digitsValue_append, digitsValue_append, digitsValue_replicate_zero]
      simp [digitsValue]
    have hexp : (0 : Int) - (List.replicate (-point).toNat '0' ++ digits).length =
        point - digits.length := by
      rw [List.length_append, List.length_replicate]
      omega
    simp only [amount, exponentValue, hvalue, Option.map_none, Option.getD_none, hexp]

include hall hzero hne in
theorem exists_after {n : Nat} (hpoint : point = digits.length + n) : ∃ d : Decimal,
    d.text = digits ++ List.replicate n '0' ++ ['.', '0'] ∧ d.IsFractional ∧
      d.amount = digitsValue digits * 10 ^ (point - digits.length) := by
  refine ⟨⟨digits ++ List.replicate n '0', ['0'], none, ?_, ?_, fun hhead => ?_,
    isDigit_of_mem_zero, ?_⟩, ?_, .inl (List.cons_ne_nil _ _), ?_⟩
  · exact fun c hc => (List.mem_append.mp hc).elim (hall c) (isDigit_of_mem_zeros c)
  · exact fun hnil => hne (List.append_eq_nil_iff.mp hnil).1
  · obtain ⟨c, more, rfl⟩ := List.exists_cons_of_ne_nil hne
    exact absurd hhead hzero
  · rintro _ ⟨⟩
  · simp [text, fractionText, exponentText]
  · have hvalue : digitsValue (digits ++ List.replicate n '0' ++ ['0']) =
        10 ^ (n + 1) * digitsValue digits := by
      rw [List.append_assoc, ← List.replicate_succ', digitsValue_append,
        digitsValue_replicate_zero, List.length_replicate, Nat.add_zero]
    have hexp : point - digits.length = n := by omega
    simp only [amount, exponentValue, hvalue, hexp, Option.map_none, Option.getD_none,
      List.length_singleton]
    push_cast
    rw [zpow_neg_one, zpow_natCast, pow_succ]
    field_simp

include hall hzero in
theorem exists_among {n : Nat} (hn : n ≠ 0) (hlong : n < digits.length) : ∃ d : Decimal,
    d.text = digits.take n ++ '.' :: digits.drop n ∧ d.IsFractional ∧
      d.amount = digitsValue digits * 10 ^ ((n : Int) - digits.length) := by
  have hdrop : digits.drop n ≠ [] := fun hnil =>
    absurd (List.drop_eq_nil_iff.mp hnil) (Nat.not_le.mpr hlong)
  refine ⟨⟨digits.take n, digits.drop n, none, ?_, ?_, fun hhead => ?_, ?_, ?_⟩, ?_, .inl hdrop, ?_⟩
  · exact fun c hc => hall c (List.mem_of_mem_take hc)
  · intro hnil
    have hlength := congrArg List.length hnil
    rw [List.length_take, List.length_nil] at hlength
    omega
  · rw [List.head?_take, if_neg hn] at hhead
    exact absurd hhead hzero
  · exact fun c hc => hall c (List.mem_of_mem_drop hc)
  · rintro _ ⟨⟩
  · simp [text, fractionText, exponentText, hlong]
  · have hexp : (0 : Int) - (digits.drop n).length = n - digits.length := by
      rw [List.length_drop]
      omega
    simp only [amount, exponentValue, List.take_append_drop, Option.map_none, Option.getD_none,
      hexp]

include hall hzero hne in
theorem exists_positional (hpoint : -4 < point ∧ point ≤ 16) : ∃ d : Decimal,
    (Double.layout digits point).toList = d.text ∧ d.IsFractional ∧
      d.amount = digitsValue digits * 10 ^ (point - digits.length) := by
  unfold Double.layout
  rw [if_pos hpoint]
  by_cases hleft : point ≤ 0
  -- the point stands before the digits, after them, or among them
  · obtain ⟨d, hd, hrest⟩ := exists_before hall hne hleft
    refine ⟨d, ?_, hrest⟩
    rw [if_pos hleft, hd]
    simp
  · obtain ⟨n, rfl⟩ := Int.eq_ofNat_of_zero_le (Int.not_le.mp hleft).le
    rw [if_neg hleft, Int.toNat_natCast]
    by_cases hlong : digits.length ≤ n
    · have hafter : (n : Int) = digits.length + (n - digits.length : ℕ) := by omega
      obtain ⟨d, hd, hrest⟩ := exists_after hall hzero hne hafter
      refine ⟨d, ?_, hrest⟩
      simp only [if_pos hlong, hd]
      simp
    · obtain ⟨d, hd, hrest⟩ := exists_among hall hzero (n := n) (by omega) (Nat.not_le.mp hlong)
      refine ⟨d, ?_, hrest⟩
      simp only [if_neg hlong, hd]
      simp

end Positional

theorem exists_layout {digits : List Char} (hall : ∀ c ∈ digits, c.isDigit = true)
    (hzero : digits.head? ≠ some '0') (hne : digits ≠ []) (point : Int) : ∃ d : Decimal,
    (Double.layout digits point).toList = d.text ∧ d.IsFractional ∧
      d.amount = digitsValue digits * 10 ^ (point - digits.length) := by
  by_cases hpoint : -4 < point ∧ point ≤ 16
  · exact exists_positional hall hzero hne hpoint
  · obtain ⟨c, more, rfl⟩ := List.exists_cons_of_ne_nil hne
    have hmore : ∀ x ∈ more, x.isDigit = true := fun x hx => hall x (List.mem_cons_of_mem c hx)
    obtain ⟨d, hd, hfractional, hamount⟩ :=
      exists_scientific (hall c List.mem_cons_self) hmore (point - 1)
    refine ⟨d, ?_, hfractional, ?_⟩
    · unfold Double.layout
      rw [if_neg hpoint, hd]
      cases more <;> simp
    · rw [hamount, List.length_cons, Nat.cast_succ, sub_sub, add_comm (1 : Int)]

end Decimal

end FilterTree
