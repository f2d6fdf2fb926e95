import FilterTree.Json.Reader
import FilterTree.Proofs.Number.Canonical
import FilterTree.Proofs.Outcome
import FilterTree.Proofs.Value.Stored

/-! What JSON text is read as. All of it can be kept as it is, doubles in canonical form. -/

namespace FilterTree

namespace Value

end Value

namespace Json
open Value (IsDatum AreData EntriesData)

def Gives {α : Type} (P : α → Prop) (x : Except Fault (α × List Char)) : Prop :=
  ∀ p, x = .ok p → P p.1

namespace Gives
variable {α β : Type} {P : α → Prop} {Q : β → Prop}

theorem ok {a : α} (h : P a) (rest : List Char) : Gives P (.ok (a, rest)) := by
  rintro _ ⟨⟩
  exact h

theorem error (fault : Fault) : Gives P (.error fault) := nofun

theorem bind {x : Except Fault (α × List Char)} {f : α × List Char → Except Fault (β × List Char)}
    (hx : Gives P x) (hf : ∀ a rest, P a → Gives Q (f (a, rest))) : Gives Q (x >>= f) := by
  intro p hp
  obtain ⟨a, ha, hrest⟩ := except_bind_eq_ok_iff.mp hp
  exact hf a.1 a.2 (hx a ha) p hrest

end Gives

end Json

end FilterTree
