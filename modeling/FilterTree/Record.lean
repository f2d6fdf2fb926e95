import FilterTree.Fault

/-! The records of an encoded condition, and how data is read as records. Reading goes on after a
fault, so that all of them are found. -/

namespace FilterTree

/-- One slot of an encoded condition, with the join that stands after it. -/
inductive Record where
  | expression (join : Join) (key operator : String) (value : Value)
  | condition (join : Join) (records : List Record)

def Record.join : Record → Join
  | .expression j _ _ _ => j
  | .condition j _ => j

abbrev Checked (α : Type) := Except (List SchemaFault) α

namespace Checked

def fault {α : Type} (cause : SchemaCause) : Checked α :=
  .error [⟨[], cause⟩]

def within {α : Type} (step : PathStep) (x : Checked α) : Checked α :=
  x.mapError fun faults => faults.map (·.within step)

def both {α β : Type} (x : Checked α) (y : Checked β) : Checked (α × β) :=
  match x, y with
  | .ok a, .ok b => .ok (a, b)
  | .ok _, .error faults => .error faults
  | .error faults, .ok _ => .error faults
  | .error faults, .error more => .error (faults ++ more)

theorem both_eq_ok_iff {α β : Type} {x : Checked α} {y : Checked β} {a : α} {b : β} :
    both x y = .ok (a, b) ↔ x = .ok a ∧ y = .ok b := by
  cases x <;> cases y <;> simp [both]

end Checked

namespace Value

def asText (v : Value) : Checked String :=
  match v with
  | .bytes bs | .buffer bs =>
    match String.fromUTF8? ⟨bs.toArray⟩ with
    | some s => .ok s
    | none => Checked.fault .notUnicode
  | v =>
    match v.text? with
    | some s => .ok s
    | none => Checked.fault .notString

def asJoin (v : Value) : Checked Join :=
  match v.asText.toOption.bind Join.ofName? with
  | some j => .ok j
  | none => Checked.fault (.notMember "'and' or 'or'")

end Value

namespace Record

def required {α : Type} (entries : List (Value × Value)) (name : String)
    (read : Value → Checked α) : Checked α :=
  match Value.field? entries name with
  | some v => (read v).within (.field name)
  | none => (Checked.fault .missing).within (.field name)

def joinOf (entries : List (Value × Value)) : Checked Join :=
  match Value.field? entries "joinOperator", Value.field? entries "join_operator" with
  | none, some v => v.asJoin.within (.field "join_operator")
  | _, _ => required entries "joinOperator" Value.asJoin

def expressionOf (v : Value) : Checked (String × String × Value) :=
  match v with
  | .map entries | .loop (.map entries) =>
    Checked.both (required entries "key" Value.asText)
      (Checked.both (required entries "operator" Value.asText) (required entries "value" .ok))
  | _ => Checked.fault (.notRecord "ExpressionRecord")

def optional {α : Type} (entries : List (Value × Value)) (name : String)
    (read : Value → Checked α) : Checked (Option α) :=
  match Value.field? entries name with
  | none | some .null => .ok none
  | some v => ((read v).within (.field name)).map some

/-- A slot from its parts: it holds an expression or a condition, and not both. -/
def assemble (join : Join) (single : Option (String × String × Value))
    (nested : Option (List Record)) : Checked Record :=
  match single, nested with
  | none, none => Checked.fault .noPayload
  | some _, some _ => Checked.fault .twoPayloads
  | some (key, operator, value), none => .ok (.expression join key operator value)
  | none, some records => .ok (.condition join records)

mutual

def ofValue : Value → Checked Record
  | .map entries => do
    let ((join, single), nested) ←
      Checked.both (Checked.both (joinOf entries) (optional entries "expression" expressionOf))
        ((nestedOf entries).within (.field "condition"))
    assemble join single nested
  | .loop (.map _) => Checked.fault .loop
  | _ => Checked.fault (.notRecord "SlotRecord")

def nestedOf : List (Value × Value) → Checked (Option (List Record))
  | [] => .ok none
  | (k, v) :: rest => if k.same true (.text "condition") then ofSequence v else nestedOf rest

def ofSequence : Value → Checked (Option (List Record))
  | .null => .ok none
  | .list xs | .tuple xs | .set xs | .frozenset xs => (ofItems 0 xs).map some
  | _ => Checked.fault .notList

def ofItems (index : Nat) : List Value → Checked (List Record)
  | [] => .ok []
  | x :: xs =>
    (Checked.both ((ofValue x).within (.index index)) (ofItems (index + 1) xs)).map
      fun (r, rs) => r :: rs

end

end Record

end FilterTree
