import FilterTree.Fault

/-! The normal form of a value, in which it is stored and survives both text formats: tuples and
sets become lists. A set is ordered by the displayed form of its items, so that the order in which
it happened to be built does not show. -/

namespace FilterTree

namespace Value

def sortKeyed {α : Type} (items : List (String × α)) : List α :=
  (items.mergeSort fun a b => decide (a.1 ≤ b.1)).map (·.2)

mutual

def normal : Value → Value
  | .set xs | .frozenset xs => .list (sortKeyed (normalKeyed xs))
  | .list xs | .tuple xs => .list (normalAll xs)
  | .map es => .map (normalEntries es)
  | v => v

def normalAll : List Value → List Value
  | [] => []
  | x :: xs => normal x :: normalAll xs

def normalKeyed : List Value → List (String × Value)
  | [] => []
  | x :: xs => (display x, normal x) :: normalKeyed xs

def normalEntries : List (Value × Value) → List (Value × Value)
  | [] => []
  | (k, v) :: es => (k, normal v) :: normalEntries es

end

mutual

def isSortable : Value → Bool
  | .set xs | .frozenset xs => areLegible xs
  | .list xs | .tuple xs => areSortable xs
  | .map es => entriesSortable es
  | _ => true

def areSortable : List Value → Bool
  | [] => true
  | x :: xs => isSortable x && areSortable xs

def entriesSortable : List (Value × Value) → Bool
  | [] => true
  | (_, v) :: es => isSortable v && entriesSortable es

end

mutual

/-- What keeps a value from being put in normal form. Parts are gone through from the left, and the
first that cannot be put so counts; the items of a set are written before they are gone through. -/
def obstacle? : Value → Option Fault
  | .set xs | .frozenset xs =>
    if !areLegible xs then some .longInteger else if anyEndless xs then some .endless else none
  | .list xs | .tuple xs => firstObstacle? xs
  | .map es => obstacleOfEntries? es
  | v => if v.isEndless then some .endless else none

def firstObstacle? : List Value → Option Fault
  | [] => none
  | x :: xs => (obstacle? x).or (firstObstacle? xs)

def obstacleOfEntries? : List (Value × Value) → Option Fault
  | [] => none
  | (k, v) :: es =>
    (if k.isEndless then some .endless else obstacle? v).or (obstacleOfEntries? es)

end

end Value

end FilterTree
