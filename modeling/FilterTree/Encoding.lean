import FilterTree.Record
import FilterTree.Tree.Sketch
import FilterTree.Json.Reader
import FilterTree.Json.Writer
import FilterTree.Yaml.Reader
import FilterTree.Yaml.Writer

/-! Condition trees as text, in one of two formats, and text as records. Without a format given,
text is read as JSON if it is JSON, else as YAML. -/

namespace FilterTree

inductive Format where
  | json | yaml
  deriving DecidableEq, Repr

namespace Format

def name : Format → String
  | .json => "json"
  | .yaml => "yaml"

def ofName? (s : String) : Option Format :=
  [Format.json, Format.yaml].find? (·.name == s)

def ofValue (v : Value) : Except Fault Format :=
  match v.text?.bind ofName? with
  | some f => .ok f
  | none => .error (.misuse (.unknownFormat v))

def ofOptional (v : Value) : Except Fault (Option Format) :=
  match v with
  | .null => .ok none
  | v => (ofValue v).map some

end Format

def Json.Fault.toFault (text : String) : Json.Fault → FilterTree.Fault
  | .syntaxFault cause left => .malformed (.badJson (Json.describe text cause left))
  | .tooManyDigits => .other .value "Exceeds the limit for integer string conversion"

def Yaml.Failure.toFault : Yaml.Failure → FilterTree.Fault
  | .invalid => .malformed .badYaml
  | .other kind => .other kind ""

def readYaml (text : String) : Except Fault Value :=
  ((Yaml.read text).map Linked.unfolded).mapError Yaml.Failure.toFault

/-- The data a text holds. An integer with too many digits is no reason to try another format. -/
def loadText (text : String) (format : Option Format) : Outcome Value :=
  match format with
  | some .yaml => Outcome.ofExcept (readYaml text)
  | some .json => Outcome.ofExcept ((Json.read text).mapError (Json.Fault.toFault text))
  | none =>
    match Json.read text with
    | .error (.syntaxFault _ _) => do
      Outcome.log .debug .serializer "Input is not JSON, trying YAML"
      Outcome.ofExcept (readYaml text)
    | other => Outcome.ofExcept (other.mapError (Json.Fault.toFault text))

def Value.sequence? : Value → Option (List Value)
  | .list xs | .tuple xs => some xs
  | .buffer bs => some (bs.map fun b => .int b.toNat)
  | _ => none

/-- The data of an encoding: text is read, bytes are decoded first, all else is taken as it is. -/
def loadEncoded (encoded format : Value) : Outcome Value :=
  let text (s : String) : Outcome Value := do
    let f ← Outcome.ofExcept (Format.ofOptional format)
    loadText s f
  match encoded with
  | .bytes bs =>
    match String.fromUTF8? ⟨bs.toArray⟩ with
    | some s => text s
    | none => .fail (.other .decoding "invalid bytes")
  | v =>
    match v.text? with
    | some s => text s
    | none => pure v

def decode (encoded format : Value) : Outcome (List Record) := do
  let data ← loadEncoded encoded format
  match data.sequence? with
  | none => .fail (.malformed (.notList data.typeName))
  | some items =>
    match Record.ofItems 0 items with
    | .ok records => return records
    | .error faults => .fail (.malformed (.badRecords faults))

def Tree.encode (t : Tree) (f : Format) : Except Fault String :=
  match f with
  | .json => Json.write t.record
  | .yaml => (t.sketch []).map Yaml.write

def Tree.dump (t : Tree) (format : Value) : Except Fault String := do
  let f ← Format.ofValue format
  t.encode f

end FilterTree
