import FilterTree.Proofs.Json.Data
import FilterTree.Proofs.Yaml.Impossible

/-! What YAML text is read as: whatever its tags and aliases, scalars within the bounds of their kinds
in collections of these. -/

namespace FilterTree

namespace Yaml
open Value (IsAtom IsDatum)

theorem exists_mem_of_mapM_ok {ε α β : Type} {f : α → Except ε β} {xs : List α} {ys : List β}
    (h : xs.mapM f = .ok ys) {y : β} (hy : y ∈ ys) : ∃ x ∈ xs, f x = .ok y := by
  induction xs generalizing ys with
  | nil =>
    cases h
    cases hy
  | cons x xs ih =>
    rw [List.mapM_cons] at h
    obtain ⟨z, hz, hmore⟩ := except_bind_eq_ok_iff.mp h
    obtain ⟨zs, hzs, heq⟩ := except_bind_eq_ok_iff.mp hmore
    cases heq
    rcases List.mem_cons.mp hy with rfl | hy
    · exact ⟨x, List.mem_cons_self, hz⟩
    · obtain ⟨w, hw, hwy⟩ := ih hzs hy
      exact ⟨w, List.mem_cons_of_mem x hw, hwy⟩

/-! ### Scalars -/

namespace Scalar

theorem isCanonical_of_readDecimal {cs : List Char} {x : Double}
    (h : readDecimal cs = .ok (.number x)) : x.IsCanonical := by
  unfold readDecimal orValue at h
  split at h
  · next r hr =>
    cases h
    exact Reading.isCanonical_of_ofText? hr
  · cases h

theorem isAtom_negated {v : Value} (negative : Bool) (h : v.IsAtom) : (negated negative v).IsAtom := by
  unfold negated
  split
  · split
    · exact Double.IsCanonical.neg h
    · exact h
  · exact h

theorem isAtom_of_sumOfSixties {digits : List Reading} {v : Value}
    (h : sumOfSixties digits = .ok v) : v.IsAtom := by
  unfold sumOfSixties at h
  obtain ⟨acc, hacc, hv⟩ := except_bind_eq_ok_iff.mp h
  -- each partial sum is rounded, so that the last one is canonical
  have hsum : ∀ x, acc.1 = some x → x.IsCanonical := by
    refine except_foldlM_induction (P := fun acc : Option Double × Nat =>
      ∀ x, acc.1 = some x → x.IsCanonical) (fun acc d next hacc hnext => ?_) ?_ hacc
    · split at hnext
      · cases hnext
      · cases hnext
        intro x hx
        obtain ⟨y, hy, hadd⟩ := Option.bind_eq_some_iff.mp hx
        exact (hacc y hy).add? (Double.isCanonical_scaleBy _ _) hadd
      · cases hnext
        exact nofun
    · rintro _ ⟨⟩
      exact Double.isCanonical_zero false
  split at hv
  · next x hx =>
    cases hv
    exact hsum x hx
  · cases hv
    trivial

theorem isAtom_of_readFloat {s : String} {v : Value} (h : readFloat s = .ok v) : v.IsAtom := by
  unfold readFloat at h
  obtain ⟨⟨negative, cs⟩, -, h⟩ := except_bind_eq_ok_iff.mp h
  dsimp only at h
  split at h
  · cases h
    trivial
  · split at h
    · cases h
      trivial
    · obtain ⟨digits, hdigits, h⟩ := except_bind_eq_ok_iff.mp h
      split at h
      · next x =>
        cases h
        obtain ⟨part, -, hpart⟩ := exists_mem_of_mapM_ok hdigits List.mem_cons_self
        exact isAtom_negated negative (isCanonical_of_readDecimal hpart)
      · cases h
        trivial
      · obtain ⟨w, hw, hv⟩ := except_bind_eq_ok_iff.mp h
        cases hv
        exact isAtom_negated negative (isAtom_of_sumOfSixties hw)

theorem dvd_of_offsetOf {zone : Option (Option Char × List Char × List Char)} {o : Int}
    (h : offsetOf zone = some o) : 60000000 ∣ o := by
  unfold offsetOf at h
  split at h
  · cases h
  · cases h
    exact Int.dvd_zero _
  · next sign hours minutes =>
    have hdvd : (60000000 : Int) ∣
        ((digitsValue hours * 3600 + digitsValue minutes * 60) * 1000000 : Nat) := by
      omega
    cases h
    split
    · exact Int.dvd_neg.mpr hdvd
    · exact hdvd

theorem isAtom_of_readTimestamp {serial : Nat} {s : String} {v : Value}
    (h : readTimestamp serial s = .ok v) : v.IsAtom := by
  unfold readTimestamp at h
  split at h
  · cases h
  · next t _ =>
    dsimp only at h
    split at h
    · split at h
      · next hvalid =>
        cases h
        exact hvalid
      · cases h
    · split at h
      · next hvalid =>
        cases h
        exact ⟨hvalid, fun o ho => dvd_of_offsetOf ho⟩
      · cases h

theorem isAtom_of_readBool {s : String} {v : Value} (h : readBool s = .ok v) : v.IsAtom := by
  unfold readBool at h
  dsimp only at h
  split at h
  · cases h
    trivial
  · split at h
    · cases h
      trivial
    · cases h

theorem isAtom_of_readInt {s : String} {v : Value} (h : readInt s = .ok v) : v.IsAtom := by
  obtain ⟨⟨negative, cs⟩, -, h⟩ := except_bind_eq_ok_iff.mp h
  have hint {n : Except Failure Int} (hn : (n >>= fun n =>
      .ok (Value.int (if negative then -n else n))) = .ok v) : v.IsAtom := by
    obtain ⟨n, -, hv⟩ := except_bind_eq_ok_iff.mp hn
    cases hv
    trivial
  dsimp only at h
  split at h
  · cases h
  · exact hint h
  · exact hint h
  · exact hint h
  · exact hint h
  · obtain ⟨digits, -, hn⟩ := except_bind_eq_ok_iff.mp h
    exact hint hn

theorem isAtom_of_readBinary {s : String} {v : Value} (h : readBinary s = .ok v) : v.IsAtom := by
  unfold readBinary at h
  split at h
  · split at h
    · cases h
      trivial
    · cases h
  · cases h

theorem isAtom_of_read {serial : Nat} {tag s : String} {v : Value}
    (h : read serial tag s = .ok v) : v.IsAtom := by
  unfold read at h
  split_ifs at h
  · cases h
    trivial
  · cases h
    trivial
  · exact isAtom_of_readBool h
  · exact isAtom_of_readInt h
  · exact isAtom_of_readFloat h
  · exact isAtom_of_readBinary h
  · exact isAtom_of_readTimestamp h

end Scalar

end Yaml

/-! ### Collections -/

namespace Item

def IsData : Item → Prop
  | .value v => v.IsAtom
  | .collection _ => True
  | .pair first second => IsData first ∧ IsData second

end Item

namespace Holding

def IsData : Holding → Prop
  | .list items => ∀ i ∈ items, i.IsData
  | .set items => ∀ v ∈ items, v.IsAtom
  | .map entries => ∀ e ∈ entries, e.1.IsAtom ∧ e.2.IsData

end Holding

namespace Value

end Value

namespace Yaml

namespace Build
variable {α β : Type}

/-- Whether all that has been made is data. -/
structure HoldsData (b : Builder) : Prop where
  made : ∀ i, some i ∈ b.made → i.IsData
  collections : ∀ h ∈ b.collections, h.IsData

def Gives (P : α → Prop) (m : Build α) : Prop :=
  ∀ b, HoldsData b → ∀ a d, m b = .ok (a, d) → P a ∧ HoldsData d

theorem Gives.bind {P : α → Prop} {Q : β → Prop} {m : Build α} {f : α → Build β}
    (hm : Gives P m) (hf : ∀ a, P a → Gives Q (f a)) : Gives Q (m >>= f) := by
  intro b hb c e h
  change (m b >>= fun q => f q.1 q.2) = _ at h
  obtain ⟨⟨a, d⟩, hma, hfa⟩ := except_bind_eq_ok_iff.mp h
  obtain ⟨ha, hd⟩ := hm b hb a d hma
  exact hf a ha d hd c e hfa

end Build

end Yaml

end FilterTree
