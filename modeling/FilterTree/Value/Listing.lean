import FilterTree.Value

/-! The order in which a set lists its items. Numbers lie in a table, each at a slot that its hash
leads to, and are listed from the first slot on. Items of other kinds keep the order in which they
came. -/

namespace FilterTree.Value

def hashPrime : Nat := 2305843009213693951

def signedHash (negative : Bool) (n : Nat) : Int :=
  let h : Int := if negative then -((n % hashPrime : Nat) : Int) else (n % hashPrime : Nat)
  if h = -1 then -2 else h

/-- The hash of a number, which equal numbers of different types share. A power of two counts by its
exponent modulo 61, for the prime is one less than that power of two. -/
def hash? : Value → Option Int
  | .bool b => some (cond b 1 0)
  | .int n => some (signedHash (n < 0) n.natAbs)
  | .float (.finite s m e) => some (signedHash s (m * Nat.pow 2 (e.emod 61).toNat))
  | .float (.infinite s) => some (if s then -314159 else 314159)
  | _ => none

abbrev Slots := List (Option (Int × Value))

namespace Slots

def empty (size : Nat) : Slots := List.replicate size none

def freeNear? (t : Slots) (start : Nat) : Option Nat :=
  let count := if start + 10 ≤ t.length then 10 else 1
  ((t.drop start).take count).findIdx? (·.isNone) |>.map (start + ·)

def free (t : Slots) (start left : Nat) : Nat → Nat
  | 0 => start
  | fuel + 1 =>
    match t.freeNear? start with
    | some i => i
    | none => free t ((start * 5 + 1 + left / 32) % t.length) (left / 32) fuel

def place (t : Slots) (item : Int × Value) : Slots :=
  let left := (item.1.emod 18446744073709551616).toNat
  t.set (t.free (left % t.length) left (t.length + 13)) (some item)

def items (t : Slots) : List (Int × Value) :=
  t.filterMap id

def sizeAbove (least size : Nat) : Nat → Nat
  | 0 => size
  | fuel + 1 => if least < size then size else sizeAbove least (2 * size) fuel

/-- Places an item that is new; three fifths full, the table is made anew, four times as large as
what it holds. -/
def add (t : Slots) (item : Int × Value) : Slots :=
  let t := t.place item
  let used := t.items.length
  if 5 * used < 3 * (t.length - 1) then t
  else t.items.foldl place (empty (sizeAbove (4 * used) 8 used))

def forKeys (count : Nat) : Slots :=
  empty (if 5 * count < 21 then 8 else sizeAbove (2 * count) 8 count)

def fill? (t : Slots) (xs : List Value) : Option (List Value) :=
  (xs.mapM fun (x : Value) => (hash? x).map (·, x)).map fun items =>
    (items.foldl add t).items.map (·.2)

end Slots

/-- The order in which a set lists items that came one by one. -/
def listed (xs : List Value) : List Value :=
  ((Slots.empty 8).fill? xs).getD xs

def setOf (xs : List Value) : Value :=
  .set (listed (distinct xs))

def frozensetOf (xs : List Value) : Value :=
  .frozenset (listed (distinct xs))

def listedKeys (keys : List Value) : List Value :=
  ((Slots.forKeys keys.length).fill? keys).getD keys

end FilterTree.Value
