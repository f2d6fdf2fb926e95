/-! Double-precision numbers as exact signed dyadic fractions. Rounding a ratio goes to the nearest
double, a tie to the even significand; everything else is arithmetic on integers. -/

namespace FilterTree

/-- A double other than not-a-number. A finite one is in canonical form: the significand is below
`2 ^ 53`, and at least `2 ^ 52` unless the exponent is the least one, `-1074`. -/
inductive Double where
  | finite (negative : Bool) (significand : Nat) (exponent : Int)
  | infinite (negative : Bool)
  deriving DecidableEq, Repr

namespace Double

def leastExponent : Int := -1074

def greatestExponent : Int := 971

def zero (negative : Bool) : Double :=
  .finite negative 0 leastExponent

def roundQuotient (num den : Nat) : Nat :=
  let q := num / den
  let r := num % den
  if 2 * r < den then q
  else if den < 2 * r then q + 1
  else if q % 2 = 0 then q else q + 1

def scale (num den : Nat) (e : Int) : Nat × Nat :=
  if 0 ≤ e then (num, den * Nat.pow 2 e.toNat) else (num * Nat.pow 2 (-e).toNat, den)

def exponentFor (num den : Nat) : Int :=
  let guess : Int := (num.log2 : Int) - den.log2 - 52
  let (n, d) := scale num den guess
  let e := if n / d < Nat.pow 2 52 then guess - 1 else guess
  max e leastExponent

def ofRatio (negative : Bool) (num den : Nat) : Double :=
  if num = 0 then zero negative
  else
    let e := exponentFor num den
    let (n, d) := scale num den e
    let q := roundQuotient n d
    let (q, e) := if q = Nat.pow 2 53 then (Nat.pow 2 52, e + 1) else (q, e)
    if greatestExponent < e then .infinite negative
    else if q = 0 then zero negative
    else .finite negative q e

def ofDecimal (negative : Bool) (digits : Nat) (exponent : Int) : Double :=
  if digits = 0 then zero negative
  else
    let magnitude : Int := (Nat.toDigits 10 digits).length + exponent
    if 310 < magnitude then .infinite negative
    else if magnitude < -330 then zero negative
    else if 0 ≤ exponent then ofRatio negative (digits * Nat.pow 10 exponent.toNat) 1
    else ofRatio negative digits (Nat.pow 10 (-exponent).toNat)

def isZero : Double → Bool
  | .finite _ m _ => m = 0
  | .infinite _ => false

def neg : Double → Double
  | .finite s m e => .finite (!s) m e
  | .infinite s => .infinite (!s)

def same (x y : Double) : Bool :=
  x == y || (x.isZero && y.isZero)

def toRatio? : Double → Option (Int × Nat)
  | .finite s m e =>
    let n : Int := if s then -(m : Int) else m
    some (if 0 ≤ e then (n * Nat.pow 2 e.toNat, 1) else (n, Nat.pow 2 (-e).toNat))
  | .infinite _ => none

def sameAsInt (x : Double) (i : Int) : Bool :=
  match x.toRatio? with
  | some (n, d) => n == i * d
  | none => false

def ofSigned (num : Int) (den : Nat) : Double :=
  ofRatio (num < 0) num.natAbs den

def add? (x y : Double) : Option Double :=
  match x, y with
  | .infinite a, .infinite b => if a = b then some x else none
  | .infinite _, _ => some x
  | _, .infinite _ => some y
  | .finite s _ _, .finite t _ _ =>
    if x.isZero && y.isZero then some (zero (s && t))
    else
      match x.toRatio?, y.toRatio? with
      | some (a, b), some (c, d) => some (ofSigned (a * d + c * b) (b * d))
      | _, _ => none

def ofNat? (n : Nat) : Option Double :=
  match ofRatio false n 1 with
  | .infinite _ => none
  | x => some x

def scaleBy (x factor : Double) : Double :=
  match x with
  | .infinite s => .infinite s
  | .finite s _ _ =>
    match x.toRatio?, factor.toRatio? with
    | some (a, b), some (c, d) => ofRatio s (a.natAbs * c.natAbs) (b * d)
    | _, _ => .infinite s

end Double

end FilterTree
