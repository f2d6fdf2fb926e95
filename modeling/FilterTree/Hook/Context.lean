import FilterTree.Outcome
import FilterTree.Value.Literal

/-! What hooks are given: the three parts of an expression. A part is a value, or an object that
stands for one, such as another condition, or a collection in which there are such objects. The texts
of an object are made by rendering, with all that this entails. -/

namespace FilterTree

/-- A part of an expression. An object has a number, unless it is known by what it is alone, the name
of its type, its plain and its displayed form, and a record by which it is compared. -/
inductive Operand where
  | value (v : Value)
  | object (id : Option Nat) (type : String) (said shown : Outcome String) (record : Value)
  | list (items : List Operand)
  | tuple (items : List Operand)
  | map (entries : List (Value × Operand))

instance : Inhabited Operand := ⟨.value .null⟩

namespace Operand

mutual

/-- The part as data; of an object no more is left than its type and its record. -/
def asValue : Operand → Value
  | .value v => v
  | .object _ type _ _ record => .foreign type record
  | .list xs => .list (asValues xs)
  | .tuple xs => .tuple (asValues xs)
  | .map es => .map (asEntries es)

def asValues : List Operand → List Value
  | [] => []
  | x :: xs => asValue x :: asValues xs

def asEntries : List (Value × Operand) → List (Value × Value)
  | [] => []
  | (k, x) :: es => (k, asValue x) :: asEntries es

end

def typeName (o : Operand) : String :=
  o.asValue.typeName

mutual

def displayText : Operand → Outcome String
  | .value v => Outcome.ofExcept v.displayText
  | .object _ _ _ shown _ => shown
  | .list xs => Value.enclosed "[" "]" <$> displayTexts xs
  | .tuple xs => do
    match ← displayTexts xs with
    | [one] => return "(" ++ one ++ ",)"
    | items => return Value.enclosed "(" ")" items
  | .map es => Value.enclosed "\x7b" "\x7d" <$> displayEntries es

def displayTexts : List Operand → Outcome (List String)
  | [] => pure []
  | x :: xs => do
    let first ← displayText x
    let rest ← displayTexts xs
    return first :: rest

def displayEntries : List (Value × Operand) → Outcome (List String)
  | [] => pure []
  | (k, x) :: es => do
    let key ← Outcome.ofExcept k.displayText
    let shown ← displayText x
    let rest ← displayEntries es
    return (key ++ ": " ++ shown) :: rest

end

def plainText : Operand → Outcome String
  | .value v => Outcome.ofExcept v.plainText
  | .object _ _ said _ _ => said
  | o => o.displayText

def identifierText (o : Operand) : Outcome String :=
  delimited '"' <$> o.plainText

mutual

def literalText : Operand → Outcome String
  | .value v => Outcome.ofExcept v.literalText
  | .list xs | .tuple xs => do
    let items ← literalTexts xs
    return "(" ++ ",".intercalate items ++ ")"
  | .object _ _ said _ _ => delimited '\'' <$> said
  | .map es => do
    let entries ← displayEntries es
    return delimited '\'' (Value.enclosed "\x7b" "\x7d" entries)

def literalTexts : List Operand → Outcome (List String)
  | [] => pure []
  | x :: xs => do
    let first ← literalText x
    let rest ← literalTexts xs
    return first :: rest

end

def plain : Operand → String
  | .value v => v.plain
  | o => o.plainText.result.toOption.getD ""

def label : Operand → String
  | .value v => v.display
  | o => o.displayText.result.toOption.getD ""

mutual

def same : Operand → Operand → Bool
  | .list xs, b => match b with
    | .list ys => sameAll xs ys
    | b => (Value.list (asValues xs)).same false b.asValue
  | .tuple xs, b => match b with
    | .tuple ys => sameAll xs ys
    | b => (Value.tuple (asValues xs)).same false b.asValue
  | .map es, b => match b with
    | .map fs => es.length == fs.length && entriesAmong es fs
    | b => (Value.map (asEntries es)).same false b.asValue
  | .object (some i) type _ _ record, b => match b with
    | .object (some k) other _ _ record' =>
      i == k || (Value.foreign type record).same false (.foreign other record')
    | b => (Value.foreign type record).same false b.asValue
  | .object none type _ _ record, b => (Value.foreign type record).same false b.asValue
  | .value v, b => v.same false b.asValue

def sameAll : List Operand → List Operand → Bool
  | [], ys => ys.isEmpty
  | x :: xs, ys => match ys with
    | y :: ys => same x y && sameAll xs ys
    | [] => false

def entriesAmong : List (Value × Operand) → List (Value × Operand) → Bool
  | [], _ => true
  | (k, x) :: es, fs => fs.any (fun (k', y) => k.same true k' && same x y) && entriesAmong es fs

end

end Operand

structure Context where
  key : Operand
  operator : Operand
  value : Operand
  deriving Inhabited

def Context.typeName : String := "ExpressionContext"

def Context.toMap (c : Context) : Value :=
  .map [(.text "key", c.key.asValue), (.text "operator", .text c.operator.plain),
    (.text "value", c.value.asValue)]

end FilterTree
