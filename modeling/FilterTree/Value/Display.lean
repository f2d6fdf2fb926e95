import FilterTree.Value
import FilterTree.Number.Decimal
import FilterTree.Text.Quoted

/-! The two texts of a value: the displayed form, in which strings are quoted and dates written as
calls, and the plain form, in which a string stands for itself. -/

namespace FilterTree

def offsetDisplay (o : Int) : String :=
  if o = 0 then "datetime.timezone.utc"
  else
    let days := o.fdiv 86400000000
    let rest := o.fmod 86400000000
    let parts := [("days", days), ("seconds", rest / 1000000), ("microseconds", rest % 1000000)]
    let parts := (parts.filter (·.2 ≠ 0)).map fun (name, n) => s!"{name}={n}"
    "datetime.timezone(datetime.timedelta(" ++ ", ".intercalate parts ++ "))"

def Date.display (d : Date) : String :=
  s!"datetime.date({d.year}, {d.month}, {d.day})"

def Moment.display (t : Moment) : String :=
  let d := t.date
  let clock := [t.hour, t.minute] ++
    (if t.micro ≠ 0 then [t.second, t.micro] else if t.second ≠ 0 then [t.second] else [])
  let numbers := ([d.year, d.month, d.day] ++ clock).map toString
  let zone := match t.offset with
    | none => []
    | some o => ["tzinfo=" ++ offsetDisplay o]
  "datetime.datetime(" ++ ", ".intercalate (numbers ++ zone) ++ ")"

namespace Value

def enclosed (left right : String) (items : List String) : String :=
  left ++ ", ".intercalate items ++ right

mutual

def display : Value → String
  | .null => "None"
  | .bool b => if b then "True" else "False"
  | .int n => toString n
  | .float x => x.text
  | .nan _ => "nan"
  | .text s => quoted s
  | .operator o => s!"<Operator.{o.label}: {quoted o.name}>"
  | .join j => s!"<JoinOperator.{j.label}: {quoted j.name}>"
  | .bytes bs => quotedBytes [] bs
  | .buffer bs => "bytearray(" ++ quotedBytes ['\''] bs ++ ")"
  | .date d _ => d.display
  | .moment t _ => t.display
  | .list xs => enclosed "[" "]" (displayAll xs)
  | .tuple xs => match displayAll xs with
    | [one] => "(" ++ one ++ ",)"
    | items => enclosed "(" ")" items
  | .set xs => if xs.isEmpty then "set()" else enclosed "\x7b" "\x7d" (displayAll xs)
  | .frozenset xs =>
    if xs.isEmpty then "frozenset()" else enclosed "frozenset(\x7b" "\x7d)" (displayAll xs)
  | .map es => enclosed "\x7b" "\x7d" (displayEntries es)
  | .loop whole => match whole with
    | .map _ => "\x7b...\x7d"
    | _ => "[...]"
  | .foreign type _ => s!"<{type}>"

def displayAll : List Value → List String
  | [] => []
  | x :: xs => display x :: displayAll xs

def displayEntries : List (Value × Value) → List String
  | [] => []
  | (k, v) :: es => (display k ++ ": " ++ display v) :: displayEntries es

end

def plain : Value → String
  | .text s => s
  | .operator o => o.name
  | .join j => j.name
  | .date d _ => d.iso
  | .moment t _ => t.iso " "
  | v => v.display

end Value

end FilterTree
