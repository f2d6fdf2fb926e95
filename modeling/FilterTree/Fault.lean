import FilterTree.Value.Display

/-! Everything that can go wrong, by cause. The wording of each fault is in one place, and so is the
kind under which callers tell faults apart. -/

namespace FilterTree

inductive Kind where
  | condition
  | validation
  | malformed
  | contract
  | slotIndex
  | configuration
  | schema
  | type
  | value
  | key
  | attribute
  | index
  | decoding
  | encoding
  | runtime
  | unrepresentable
  | settings
  | directory
  | system
  | overflow
  | frozen
  | recursion
  deriving DecidableEq, Repr

inductive PathStep where
  | field (name : String)
  | index (n : Int)
  deriving DecidableEq, Repr

inductive SchemaCause where
  | missing
  | notRecord (name : String)
  | notString
  | notUnicode
  | notList
  | notMapping
  | notMember (names : String)
  | notLiteral (names : String)
  | notBool
  | unreadableBool
  | notPath
  | noPayload
  | twoPayloads
  | loop
  deriving DecidableEq, Repr

namespace SchemaCause

def code : SchemaCause → String
  | .missing => "missing"
  | .notRecord _ => "model_type"
  | .notString => "string_type"
  | .notUnicode => "string_unicode"
  | .notList => "list_type"
  | .notMapping => "dict_type"
  | .notMember _ => "enum"
  | .notLiteral _ => "literal_error"
  | .notBool => "bool_type"
  | .unreadableBool => "bool_parsing"
  | .notPath => "path_type"
  | .noPayload | .twoPayloads => "value_error"
  | .loop => "recursion_loop"

def message : SchemaCause → String
  | .missing => "Field required"
  | .notRecord name => s!"Input should be a valid dictionary or instance of {name}"
  | .notString => "Input should be a valid string"
  | .notUnicode => "Input should be a valid string, unable to parse raw data as a unicode string"
  | .notList => "Input should be a valid list"
  | .notMapping => "Input should be a valid dictionary"
  | .notMember names | .notLiteral names => s!"Input should be {names}"
  | .notBool => "Input should be a valid boolean"
  | .unreadableBool => "Input should be a valid boolean, unable to interpret input"
  | .notPath => "Input is not a valid path for <class 'pathlib.Path'>"
  | .noPayload => "Value error, Neither 'condition' nor 'expression' found"
  | .twoPayloads => "Value error, Both 'condition' and 'expression' found"
  | .loop => "Recursion error - cyclic reference detected"

end SchemaCause

structure SchemaFault where
  path : List PathStep
  cause : SchemaCause
  deriving DecidableEq, Repr

def SchemaFault.within (step : PathStep) (f : SchemaFault) : SchemaFault :=
  { f with path := step :: f.path }

inductive Misuse where
  | unknownJoin (v : Value)
  | keyExpected (typeName : String)
  | incomplete (key : String)
  | operatorExpected (typeName : String)
  | extraArguments
  | cycle
  | unknownFormat (v : Value)
  | unknownHook (name : Value)
  | notCallable (name : Value)
  | unknownSlot (v : Value)
  | hooksExpected (typeName : String)
  deriving Repr

def Misuse.message : Misuse → String
  | .unknownJoin v => s!"Unknown join operator: {v.display}"
  | .keyExpected t => s!"Expected key string or Condition, got {t}"
  | .incomplete key => s!"Expression '{key}' needs both operator and value"
  | .operatorExpected t => s!"Operator must be a string, got {t}"
  | .extraArguments => "A nested condition takes no operator or value"
  | .cycle => "A condition cannot be nested inside itself"
  | .unknownFormat v => s!"Unknown format: {v.display}"
  | .unknownHook name => s!"Unknown hook name: {name.display}"
  | .notCallable name => s!"Hook {name.display} is not callable"
  | .unknownSlot v => s!"Unknown hook slot: {v.display}"
  | .hooksExpected t => s!"Expected HookSet or mapping, got {t}"

inductive Malformation where
  | notList (typeName : String)
  | badRecords (faults : List SchemaFault)
  | badYaml
  | badJson (what : String)
  deriving DecidableEq, Repr

def Malformation.message : Malformation → String
  | .notList t => s!"Expected a list of records, got {t}"
  | .badRecords _ => "Malformed condition records"
  | .badYaml => "Invalid YAML"
  | .badJson what => s!"Invalid JSON: {what}"

inductive Misconfiguration where
  | unknownHook (ref : String)
  | loadFailed (ref reason : String)
  | notCallable (ref : String)
  | hookMissing (slot entry : String)
  | unknownSlot (slot : String)
  | badYaml (path : String)
  | notMapping (path typeName : String)
  | unknownEncoding (shown : String)
  | hooksFormat (typeName : String)
  deriving Repr

def Misconfiguration.message : Misconfiguration → String
  | .unknownHook ref => s!"Unknown hook '{ref}'"
  | .loadFailed ref reason => s!"Failed to load hook {ref}: {reason}"
  | .notCallable ref => s!"Hook {ref} is not callable"
  | .hookMissing slot entry => s!"Hook entry for '{slot}' missing 'hook' key: {entry}"
  | .unknownSlot slot => s!"Unknown hook slot '{slot}' in configuration"
  | .badYaml path => s!"Invalid YAML in {path}"
  | .notMapping path t => s!"Expected a mapping in {path}, got {t}"
  | .unknownEncoding shown => s!"Unknown encoding: {shown}"
  | .hooksFormat t => s!"Invalid hooks config format: {t}"

inductive Fault where
  | misuse (m : Misuse)
  | slotIndex (index : Value)
  /-- A rejected expression; `cause` is the kind of the failure that a rejection was made of. -/
  | rejected (message : String) (cause : Option Kind)
  | condition (message : String)
  | malformed (m : Malformation)
  | misconfigured (m : Misconfiguration)
  | noFile (path : String)
  | schema (faults : List SchemaFault)
  /-- A failure of another kind, such as a wrong type inside a hook. -/
  | other (kind : Kind) (message : String)
  deriving Repr

namespace Fault

def kind : Fault → Kind
  | .misuse _ => .contract
  | .slotIndex _ => .slotIndex
  | .rejected _ _ => .validation
  | .condition _ | .noFile _ => .condition
  | .malformed _ => .malformed
  | .misconfigured _ => .configuration
  | .schema _ => .schema
  | .other kind _ => kind

def message : Fault → String
  | .misuse m => m.message
  | .slotIndex index => s!"Index '{index.plain}' not found"
  | .rejected message _ => message
  | .condition message => message
  | .malformed m => m.message
  | .misconfigured m => m.message
  | .noFile path => s!"File not found: {path}"
  | .schema _ => ""
  | .other _ message => message

/-- Whether the fault is one of this library's own, which callers may expect. -/
def isOwn (f : Fault) : Bool :=
  match f with
  | .schema _ | .other _ _ => false
  | _ => true

def longInteger : Fault :=
  .other .value <|
    s!"Exceeds the limit ({Value.digitLimit} digits) for integer string conversion; " ++
      "use sys.set_int_max_str_digits() to increase the limit"

def endless : Fault :=
  .other .recursion "maximum recursion depth exceeded"

end Fault

namespace Value

def written (v : Value) (text : Value → String) : Except Fault String :=
  if v.isLegible then .ok (text v) else .error .longInteger

def displayText (v : Value) : Except Fault String :=
  v.written display

def plainText (v : Value) : Except Fault String :=
  v.written plain

end Value

end FilterTree
