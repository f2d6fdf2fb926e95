/-! Classes of characters given by tables of code point ranges. -/

namespace FilterTree

abbrev CodeRanges := Array (Nat × Nat)

def CodeRanges.contains (table : CodeRanges) (c : Char) : Bool :=
  table.any fun (lo, hi) => decide (lo ≤ c.toNat ∧ c.toNat ≤ hi)

end FilterTree
