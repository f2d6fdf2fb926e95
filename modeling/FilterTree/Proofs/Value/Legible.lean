import Mathlib.Algebra.Order.Ring.Nat
import FilterTree.Fault

/-! Which values have a text: all but those that hold an integer of too many digits. -/

namespace FilterTree.Value

theorem isLegible_tooLong : (Value.int tooLong).isLegible = false := by
  rw [isLegible, Int.natAbs_natCast, decide_eq_false (Nat.lt_irrefl _)]

theorem isLegible_of_natAbs_lt_ten {n : Int} (h : n.natAbs < 10) : (Value.int n).isLegible = true := by
  rw [isLegible, decide_eq_true_eq]
  unfold tooLong
  have hpos : digitLimit ≠ 0 := by decide
  -- the limit is generalized, or else its power of ten would be computed
  generalize digitLimit = k at hpos ⊢
  exact Nat.lt_of_lt_of_le h (Nat.le_self_pow hpos 10)

theorem isLegible_of_text? {v : Value} {s : String} (h : v.text? = some s) : v.isLegible = true := by
  cases v with
  | text | operator | join => simp [isLegible]
  | _ => cases h

theorem written_of_isLegible {v : Value} (h : v.isLegible = true) (text : Value → String) :
    v.written text = .ok (text v) :=
  if_pos h

theorem written_of_not_isLegible {v : Value} (h : v.isLegible = false) (text : Value → String) :
    v.written text = .error .longInteger :=
  if_neg (by simp [h])

end FilterTree.Value
