import FilterTree.Value

/-! Values whose collections may stand in several places, also inside themselves. They are numbered,
and what holds one names its number. A value without numbered collections is linked to nothing. -/

namespace FilterTree

inductive Item where
  | value (v : Value)
  | collection (n : Nat)
  | pair (first second : Item)
  deriving Inhabited

/-- What a collection holds. Keys of mappings and items of sets cannot change, so they are
values. -/
inductive Holding where
  | list (items : List Item)
  | set (items : List Value)
  | map (entries : List (Value × Item))
  deriving Inhabited

structure Linked where
  collections : Array Holding
  root : Item
  deriving Inhabited

namespace Item

def portrait (collections : Array Holding) (path : List Nat) : Nat → Item → Value
  | _, .value v => v
  | 0, _ => .null
  | fuel + 1, .pair a b =>
    .tuple [portrait collections path fuel a, portrait collections path fuel b]
  | fuel + 1, .collection n =>
    let inner := portrait collections (n :: path) fuel
    match collections[n]? with
    | none => .null
    | some (.set items) => .set items
    | some (.list items) => if path.contains n then .loop (.list []) else .list (items.map inner)
    | some (.map entries) =>
      if path.contains n then .loop (.map []) else .map (entries.map fun (k, i) => (k, inner i))

/-- The value of an item in which a mapping inside itself is a loop, and so is a list inside itself
with no mapping between. The whole of such a mapping is told once. `maps` are the mappings around
the item, `lists` the lists since the last of them. -/
def unfolded (collections : Array Holding) (maps lists : List Nat) : Nat → Item → Value
  | _, .value v => v
  | 0, _ => .null
  | fuel + 1, .pair a b =>
    .tuple [unfolded collections maps lists fuel a, unfolded collections maps lists fuel b]
  | fuel + 1, .collection n =>
    match collections[n]? with
    | none => .null
    | some (.set items) => .set items
    | some (.list items) =>
      if lists.contains n then .loop (.list [])
      else .list (items.map (unfolded collections maps (n :: lists) fuel))
    | some (.map entries) =>
      let whole : Value :=
        .map (entries.map fun (k, i) => (k, unfolded collections (n :: maps) [] fuel i))
      match maps.count n with
      | 0 => whole
      | 1 => .loop whole
      | _ => .loop (.map [])

end Item

namespace Linked

def ofValue (v : Value) : Linked :=
  ⟨#[], .value v⟩

def seenFrom (l : Linked) (i : Item) : Linked :=
  { l with root := i }

/-- Enough for a way through the collections that enters each of them once, pairs between them
included. -/
def reach (l : Linked) : Nat :=
  2 * l.collections.size + 2

def portrait (l : Linked) : Value :=
  l.root.portrait l.collections [] l.reach

def unfolded (l : Linked) : Value :=
  l.root.unfolded l.collections [] [] (l.reach * l.reach)

def entries? (l : Linked) : Option (List (Value × Linked)) :=
  match l.root with
  | .value (.map es) => some (es.map fun (k, v) => (k, ofValue v))
  | .collection n =>
    match l.collections[n]? with
    | some (.map entries) => some (entries.map fun (k, i) => (k, l.seenFrom i))
    | _ => none
  | _ => none

def items? (l : Linked) : Option (List Linked) :=
  match l.root with
  | .value v => v.items?.map (·.map ofValue)
  | .pair a b => some [l.seenFrom a, l.seenFrom b]
  | .collection n =>
    match l.collections[n]? with
    | some (.list items) => some (items.map l.seenFrom)
    | some (.set items) => some (items.map ofValue)
    | some (.map entries) => some (entries.map fun (k, _) => ofValue k)
    | none => none

end Linked

end FilterTree
