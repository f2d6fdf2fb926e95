import FilterTree.Proofs.Outcome
import FilterTree.Proofs.Value.Stored
import FilterTree.Tree.Sketch

/-! Which values can be laid out. What is left in a condition of data that was read has no sets, tuples
or members of vocabularies, so that nothing but an integer of too many digits is in the way. -/

namespace FilterTree

namespace Yaml.Sketch
open Value (IsAtom IsStored AreStored EntriesStored)

theorem exactIf_ofScalar_int (path : List Nat) (n : Int) :
    ExactIf (Value.int n).isLegible (ofScalar path (.int n)) := by
  rw [ofScalar]
  -- the condition is generalized, or else the power of ten that is the limit would be computed
  generalize (Value.int n).isLegible = b
  cases b with
  | true => exact .ok _
  | false => exact .error rfl

theorem exactIf_ofScalar (path : List Nat) : ∀ v : Value, v.IsAtom →
    ExactIf v.isLegible (ofScalar path v)
  | .int n, _ => exactIf_ofScalar_int path n
  | .null, _ | .bool _, _ | .float _, _ | .nan _, _ | .text _, _ | .bytes _, _ | .date _ _, _
  | .moment _ _, _ => .ok _
  | .operator _, h | .join _, h | .buffer _, h | .list _, h | .tuple _, h | .set _, h
  | .frozenset _, h | .map _, h | .loop _, h | .foreign _ _, h => absurd h id

theorem ofValue_of_isAtom (leaf : Nat) (path trail : List Nat) (v : Value) (h : v.IsAtom) :
    ofValue leaf path trail v = ofScalar path v := by
  cases v <;> first
    | exact absurd h id
    | rw [ofValue.eq_def]

variable (leaf : Nat) (path : List Nat)

mutual

theorem exactIf_ofValue (trail : List Nat) : ∀ v : Value, v.IsStored →
    ExactIf v.isLegible (ofValue leaf path trail v)
  | .list xs, h => (exactIf_ofValues trail 0 xs h).map _
  | .map es, h => (exactIf_ofEntries trail 0 es h).map _
  | .null, h | .bool _, h | .int _, h | .float _, h | .nan _, h | .text _, h | .bytes _, h
  | .date _ _, h | .moment _ _, h => by
    rw [ofValue_of_isAtom leaf path trail _ (by exact h)]
    exact exactIf_ofScalar path _ h
  | .operator _, h | .join _, h | .buffer _, h | .tuple _, h | .set _, h | .frozenset _, h
  | .loop _, h | .foreign _ _, h => absurd h id

theorem exactIf_ofValues (trail : List Nat) (index : Nat) : ∀ xs : List Value, AreStored xs →
    ExactIf (Value.areLegible xs) (ofValues leaf path trail index xs)
  | [], _ => .ok _
  | x :: xs, ⟨hx, hxs⟩ => by
    rw [ofValues, Value.areLegible]
    exact (exactIf_ofValue (index :: trail) x hx).bind fun first =>
      (exactIf_ofValues trail (index + 1) xs hxs).map (first :: ·)

theorem exactIf_ofEntries (trail : List Nat) (index : Nat) :
    ∀ es : List (Value × Value), EntriesStored es →
    ExactIf (Value.entriesLegible es) (ofEntries leaf path trail index es)
  | [], _ => .ok _
  | (k, v) :: es, ⟨hk, hv, hes⟩ => by
    rw [ofEntries, Value.entriesLegible, Bool.and_assoc]
    exact (exactIf_ofValue (0 :: index :: trail) k hk.isStored).bind fun key =>
      (exactIf_ofValue (1 :: index :: trail) v hv).bind fun value =>
        (exactIf_ofEntries trail (index + 1) es hes).map ((key, value) :: ·)

end

end Yaml.Sketch

namespace Tree
open Yaml

mutual

def IsStored : Tree → Prop
  | .leaf _ _ c => ∃ key operator v, v.IsStored ∧ c =
      ⟨.value (.text key), .value (coerceOperator (.text operator)), .value v⟩
  | .branch _ _ slots => SlotsStored slots

def SlotsStored : List (Join × Tree) → Prop
  | [] => True
  | (_, t) :: rest => IsStored t ∧ SlotsStored rest

end

mutual

theorem exactIf_sketch (path : List Nat) : ∀ t : Tree, t.IsStored →
    ExactIf t.record.isLegible (t.sketch path)
  | .leaf id h c, ⟨key, operator, v, hv, hc⟩ => by
    subst hc
    have hlegible : (Tree.leaf id h ⟨.value (.text key), .value (coerceOperator (.text operator)),
        .value v⟩).record.isLegible = v.isLegible := by
      simp [record, Context.toMap, Operand.asValue, Value.isLegible,
        Value.entriesLegible]
    rw [hlegible]
    exact (Sketch.exactIf_ofValue id path [] v hv).map _
  | .branch id h slots, hslots => (exactIf_sketchOfSlots path 0 slots hslots).map _

theorem exactIf_sketchOfSlots (path : List Nat) (index : Nat) :
    ∀ slots : List (Join × Tree), SlotsStored slots →
    ExactIf (Value.areLegible (recordOfSlots slots)) (sketchOfSlots path index slots)
  | [], _ => .ok _
  | (j, t) :: rest, ⟨ht, hrest⟩ => by
    have hlegible : Value.areLegible (recordOfSlots ((j, t) :: rest)) =
        (t.record.isLegible && Value.areLegible (recordOfSlots rest)) := by
      simp [recordOfSlots, Value.areLegible, Value.isLegible, Value.entriesLegible]
    rw [hlegible, sketchOfSlots]
    exact (exactIf_sketch (index :: path) t ht).bind fun payload =>
      (exactIf_sketchOfSlots path (index + 1) rest hrest).map _

end

end Tree

end FilterTree
