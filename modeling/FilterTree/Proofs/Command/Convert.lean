import FilterTree.Command.Run
import FilterTree.Proofs.Json.Whole
import FilterTree.Proofs.Restore.Formats
import FilterTree.Proofs.Yaml.Allowed
import FilterTree.Proofs.Yaml.Expressed

/-! Converting a condition. Which formats have a form for it depends on its values alone: where one has
none, converting fails with a fault that no user is told of. What is written is read as a condition
again, but in YAML only if the keys of mappings are within the reach of their colons. -/

namespace FilterTree

/-! ### Trees that have been restored from text -/

namespace Tree

mutual

theorem isStored_of_unnumbered : ∀ t : Tree, t.unnumbered.IsStored → t.IsStored
  | .leaf _ _ _, h => h
  | .branch _ _ slots, h => slotsStored_of_unnumberedSlots slots h

theorem slotsStored_of_unnumberedSlots : ∀ slots : List (Join × Tree),
    SlotsStored (unnumberedSlots slots) → SlotsStored slots
  | [], _ => trivial
  | (_, t) :: rest, ⟨ht, hrest⟩ =>
    ⟨isStored_of_unnumbered t ht, slotsStored_of_unnumberedSlots rest hrest⟩

end

mutual

theorem isStored_record : ∀ t : Tree, t.IsStored → t.record.IsStored
  | .leaf _ _ c, ⟨key, operator, v, hv, hc⟩ => by
    subst hc
    exact ⟨trivial, trivial, trivial, trivial, trivial, hv, trivial⟩
  | .branch _ _ slots, h => areStored_recordOfSlots slots h

theorem areStored_recordOfSlots : ∀ slots : List (Join × Tree), SlotsStored slots →
    Value.AreStored (recordOfSlots slots)
  | [], _ => trivial
  | (_, t) :: rest, ⟨ht, hrest⟩ =>
    ⟨⟨trivial, trivial, trivial, isStored_record t ht, trivial⟩, areStored_recordOfSlots rest hrest⟩

end

end Tree

namespace Record

mutual

theorem isStored_tree (hooks : Hooks) : ∀ r : Record, r.normal.IsStored → (r.tree hooks).IsStored
  | .expression _ key operator v, h => ⟨key, operator, v.normal, h, rfl⟩
  | .condition _ records, h => slotsStored_trees hooks records h

theorem slotsStored_trees (hooks : Hooks) : ∀ records : List Record,
    AllStored (normalAll records) → Tree.SlotsStored (trees hooks records)
  | [], _ => trivial
  | r :: rest, ⟨hr, hrest⟩ => ⟨isStored_tree hooks r hr, slotsStored_trees hooks rest hrest⟩

end

mutual

theorem storable_of_isStored : ∀ r : Record, r.wire.IsStored → r.Storable
  | .expression _ _ _ v, ⟨_, _, _, ⟨_, _, _, _, _, hv, _⟩, _⟩ =>
    have h := Value.isNormal_of_isStored v hv
    ⟨h.2, Value.isSortable_of_isNormal v h.1⟩
  | .condition _ records, ⟨_, _, _, hrecords, _⟩ => allStorable_of_areStored records hrecords

theorem allStorable_of_areStored : ∀ records : List Record, Value.AreStored (wireAll records) →
    AllStorable records
  | [], _ => trivial
  | r :: rest, ⟨hr, hrest⟩ => ⟨storable_of_isStored r hr, allStorable_of_areStored rest hrest⟩

end

end Record

namespace Command

def spellsHalf (cs : List Char) : Bool :=
  let isHalf (code : Option Nat) : Bool := code.any fun n => isHighHalf n || isLowHalf n
  cs.tails.any fun
    | '\\' :: 'u' :: rest => isHalf (Yaml.hexNumber? 4 rest)
    | '\\' :: 'U' :: rest => isHalf (Yaml.hexNumber? 8 rest)
    | _ => false

/-- No half of a character is in the name of a leaf or in the key of a mapping: a name with one is not
taken, and which half it is tells two keys apart. -/
def HasWholeNames (t : Tree) : Prop :=
  (t.AllLeaves fun _ c => IsWholeText c.key.plain ∧ IsWholeText c.operator.plain) ∧
    t.record.AllTexts IsWholeText fun _ => True

instance (t : Tree) : Decidable (HasWholeNames t) :=
  inferInstanceAs (Decidable (_ ∧ _))

/-- A text is read as a condition, in which the halves of characters that it spells are values. -/
structure Reads (text : String) (t : Tree) : Prop where
  restored : (restored text none).result = .ok t
  whole : spellsHalf text.toList = false ∨ HasWholeNames t

end Command

end FilterTree
