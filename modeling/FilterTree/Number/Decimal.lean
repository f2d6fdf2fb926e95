import FilterTree.Number.Double

/-! Decimal text of doubles. Printing takes the fewest digits that read back, and of those the
nearest; reading rounds the exact decimal to the nearest double. -/

namespace FilterTree

namespace Double

/-- Four times the double over a common denominator, with the ends of the interval of numbers that
round to it: `(lower, value, upper, denominator)`. -/
def interval (m : Nat) (e : Int) : Nat × Nat × Nat × Nat :=
  let below := if m = Nat.pow 2 52 ∧ leastExponent < e then 1 else 2
  let (f, d) := if 2 ≤ e then (Nat.pow 2 (e - 2).toNat, 1) else (1, Nat.pow 2 (2 - e).toNat)
  ((4 * m - below) * f, 4 * m * f, (4 * m + 2) * f, d)

def leadingExponent (num den : Nat) : Int :=
  if den ≤ num then ((Nat.toDigits 10 (num / den)).length : Int) - 1
  else -((Nat.toDigits 10 (den / num)).length : Int)

/-- The better of the value's two neighbours on the grid of `10 ^ u`, if one lies in the interval.
The ends belong to it when the significand is even. -/
def onGrid? (even : Bool) (lower value upper den : Nat) (u : Int) : Option Nat :=
  let (p, q) := if 0 ≤ u then (Nat.pow 10 u.toNat, 1) else (1, Nat.pow 10 (-u).toNat)
  let v := value * q
  let unit := den * p
  let d := v / unit
  let inside (c : Nat) : Bool :=
    let x := c * unit
    if even then decide (lower * q ≤ x ∧ x ≤ upper * q) else decide (lower * q < x ∧ x < upper * q)
  let r := v % unit
  let first := if 2 * r < unit ∨ (2 * r = unit ∧ d % 2 = 0) then d else d + 1
  let second := if first = d then d + 1 else d
  if inside first then some first else if inside second then some second else none

def shortest (m : Nat) (e : Int) : Nat × Int :=
  let (lower, value, upper, den) := interval m e
  let k := leadingExponent value den
  let tryWith (n : Nat) : Option (Nat × Int) :=
    let u := k - n + 1
    (onGrid? (m % 2 = 0) lower value upper den u).map (·, u)
  ((List.range 17).findSome? fun i => tryWith (i + 1)).getD (0, 0)

def stripZeros (digits : List Char) : List Char :=
  (digits.reverse.dropWhile (· == '0')).reverse

def exponentText (e : Int) : String :=
  let digits := toString e.natAbs
  (if e < 0 then "e-" else "e+") ++ (if digits.length < 2 then "0" ++ digits else digits)

/-- Digits with the point after the first `point` of them: positional when the point lies within
the first sixteen digits or at most four places before them, scientific elsewhere. -/
def layout (digits : List Char) (point : Int) : String :=
  if -4 < point ∧ point ≤ 16 then
    if point ≤ 0 then "0." ++ String.ofList (List.replicate (-point).toNat '0' ++ digits)
    else
      let n := point.toNat
      if digits.length ≤ n then
        String.ofList (digits ++ List.replicate (n - digits.length) '0') ++ ".0"
      else String.ofList (digits.take n) ++ "." ++ String.ofList (digits.drop n)
  else
    let mantissa := match digits with
      | [] => "0"
      | [d] => String.ofList [d]
      | d :: rest => String.ofList (d :: '.' :: rest)
    mantissa ++ exponentText (point - 1)

def text : Double → String
  | .infinite s => if s then "-inf" else "inf"
  | .finite s m e =>
    let sign := if s then "-" else ""
    if m = 0 then sign ++ "0.0"
    else
      let (d, u) := shortest m e
      let digits := Nat.toDigits 10 d
      sign ++ layout (stripZeros digits) (digits.length + u)

end Double

def digitsValue (cs : List Char) : Nat :=
  cs.foldl (fun n c => 10 * n + (c.toNat - '0'.toNat)) 0

inductive Reading where
  | number (x : Double)
  | notNumber
  deriving DecidableEq, Repr

namespace Reading

def unsigned? (negative : Bool) (cs : List Char) : Option Double :=
  let whole := cs.takeWhile Char.isDigit
  let rest := cs.dropWhile Char.isDigit
  let (fraction, rest) := match rest with
    | '.' :: r => (r.takeWhile Char.isDigit, r.dropWhile Char.isDigit)
    | r => ([], r)
  let digits := whole ++ fraction
  let finish (e : Int) : Option Double :=
    some (.ofDecimal negative (digitsValue digits) (e - fraction.length))
  if digits.isEmpty then none
  else match rest with
    | [] => finish 0
    | c :: r =>
      if c = 'e' ∨ c = 'E' then
        let (down, ds) := match r with
          | '-' :: t => (true, t)
          | '+' :: t => (false, t)
          | t => (false, t)
        if ds.isEmpty || !ds.all Char.isDigit then none
        else
          let n : Int := digitsValue ds
          finish (if down then -n else n)
      else none

def ofText? (s : String) : Option Reading :=
  let (negative, cs) := match s.toList with
    | '-' :: t => (true, t)
    | '+' :: t => (false, t)
    | t => (false, t)
  let word := String.ofList (cs.map Char.toLower)
  if word = "inf" ∨ word = "infinity" then some (.number (.infinite negative))
  else if word = "nan" then some .notNumber
  else (unsigned? negative cs).map .number

end Reading

end FilterTree
