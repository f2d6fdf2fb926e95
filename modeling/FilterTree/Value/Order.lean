import FilterTree.Value

/-! The order of keys. Numbers, strings, byte strings, dates and moments are ordered among
themselves; there is no order between kinds. -/

namespace FilterTree.Value

def point? : Value → Option (Int × Int × Nat)
  | .bool b => some (0, cond b 1 0, 1)
  | .int n => some (0, n, 1)
  | .float (.infinite negative) => some (cond negative (-1) 1, 0, 1)
  | .float x => x.toRatio?.map fun (n, d) => (0, n, d)
  | _ => none

def isNan : Value → Bool
  | .nan _ => true
  | _ => false

def numberLess? (a b : Value) : Option Bool :=
  match a.point?, b.point? with
  | some (i, m, c), some (k, n, d) => some (decide (i < k) || (i == k && decide (m * d < n * c)))
  | some _, none | none, some _ => if a.isNan || b.isNan then some false else none
  | none, none => if a.isNan && b.isNan then some false else none

def less? : Value → Value → Option Bool
  | .bytes a, .bytes b => some (decide (a < b))
  | .date a _, .date b _ => some (decide (a.ordinal < b.ordinal))
  | .moment a _, .moment b _ =>
    if a.offset.isSome == b.offset.isSome then some (decide (a.micros < b.micros)) else none
  | a, b =>
    match a.text?, b.text? with
    | some s, some t => some (decide (s < t))
    | none, none => numberLess? a b
    | _, _ => none

def sorted? (xs : List Value) : Option (List Value) :=
  let ordered := xs.all fun x => xs.all fun y => (less? x y).isSome
  if xs.length < 2 || ordered then
    some (xs.mergeSort fun a b => (less? b a) != some true)
  else none

end FilterTree.Value
