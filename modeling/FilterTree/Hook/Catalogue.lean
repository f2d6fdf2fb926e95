import FilterTree.Hook.Layer
import FilterTree.Hook.Spec

/-! The modules of this package, and what each of their members does when it is called with the
context of an expression. Most of them expect something else and fail. -/

namespace FilterTree

/-- What a member of a module is to a loader. -/
inductive Member where
  | spec (s : Spec)
  /-- Something that passes for a specification without being one; what it binds is a callable. -/
  | posing (bind : Linked → Except Fault Hook)
  | callable (h : Hook)
  | inert

structure ImportModule where
  path : String
  isPackage : Bool
  members : List (String × Member)

namespace Context

def displayText (c : Context) : Outcome String := do
  let key ← c.key.displayText
  let operator ← c.operator.displayText
  let value ← c.value.displayText
  return s!"{typeName}(key={key}, operator={operator}, value={value})"

def unfitPart? (c : Context) : Option String :=
  (([c.key, c.operator, c.value].map Operand.asValue).find? fun v => !v.isKey).map Value.typeName

end Context

namespace Hook

def failing (name : String) (f : Fault) : Hook :=
  ⟨name, fun _ => .fail f⟩

def mistyped (name message : String) : Hook :=
  failing name (.other .type message)

def lacking (name called : String) (parameters : List String) : Hook :=
  let plural := if parameters.length = 1 then "" else "s"
  let listed := " and ".intercalate (parameters.map fun p => "'" ++ p ++ "'")
  let count := parameters.length
  mistyped name s!"{called}() missing {count} required positional argument{plural}: {listed}"

def closed (name : String) : Hook :=
  mistyped name s!"{name}() takes 0 positional arguments but 1 was given"

def closedClass (name maker : String) : Hook :=
  mistyped name s!"{maker}.__init__() takes 1 positional argument but 2 were given"

def barren (name : String) : Hook :=
  mistyped name s!"Cannot instantiate typing.{name}"

def abstract (name : String) : Hook :=
  mistyped name s!"{name}() takes no arguments"

def seeking (name wanted : String) : Hook :=
  failing name (.other .attribute s!"'{Context.typeName}' object has no attribute '{wanted}'")

def making (name : String) : Hook :=
  ⟨name, fun _ => pure (.foreign name .null)⟩

def silent (name : String) : Hook :=
  ⟨name, fun _ => pure .null⟩

def vocabulary (name : String) : Hook :=
  ⟨name, fun c => do
    let shown ← c.displayText
    .fail (.other .value s!"{shown} is not a valid {name}")⟩

end Hook

namespace ImportModule

def member (h : Hook) : String × Member :=
  (h.name, .callable h)

def aka (name : String) (h : Hook) : String × Member :=
  (name, .callable h)

def inert (name : String) : String × Member :=
  (name, .inert)

def objectMembers (owner : String) : List Hook :=
  let noArguments (name : String) : Hook :=
    .mistyped name s!"{owner}{name}() takes no arguments (1 given)"
  let noText (name : String) : Hook :=
    .mistyped name s!"attribute name must be string, not '{Context.typeName}'"
  ["__dir__", "__getstate__", "__reduce__", "__sizeof__"].map noArguments ++
    ["__getattribute__"].map noText ++
    ["__eq__", "__ge__", "__gt__", "__le__", "__lt__", "__ne__", "__subclasshook__"].map
      (fun name => { Hook.making "NotImplementedType" with name := name }) ++
    [.mistyped "__format__" s!"__format__() argument must be str, not {Context.typeName}",
     .mistyped "__reduce_ex__" s!"'{Context.typeName}' object cannot be interpreted as an integer",
     .mistyped "__str__" "expected 0 arguments, got 1"]

def ownMembers : List (String × Member) :=
  let unnamed (name : String) : Hook :=
    .mistyped name s!"module() argument 'name' must be str, not {Context.typeName}"
  (objectMembers "").map member ++
    [aka "__class__" (unnamed "module"), member (unnamed "__init__"),
     member (.mistyped "__delattr__" s!"attribute name must be string, not '{Context.typeName}'"),
     member (.mistyped "__hash__" "expected 0 arguments, got 1"),
     member (.mistyped "__init_subclass__"
       "module.__init_subclass__() takes no arguments (1 given)"),
     member (.mistyped "__new__"
       s!"module.__new__(X): X is not a type object ({Context.typeName})"),
     member (.mistyped "__repr__" "expected 0 arguments, got 1"),
     member (.mistyped "__setattr__" " expected 2 arguments, got 1")] ++
    ["__annotations__", "__builtins__", "__cached__", "__dict__", "__doc__", "__file__",
      "__loader__", "__name__", "__package__", "__spec__"].map inert

/-! ### Members that several modules have -/

def keyWhitelist : String × Member := ("key_whitelist", .spec Shipped.keyWhitelist)

def quoting : List (String × Member) :=
  [("lowercase_key", .spec Shipped.lowercaseKey),
   ("quote_identifier", .spec Shipped.quoteIdentifier),
   ("quote_literal", .spec Shipped.quoteLiteral)]

def asHookSet : String × Member :=
  member (.failing "as_hook_set" (.misuse (.hooksExpected Context.typeName)))

def condition : String × Member :=
  member (.failing "Condition" (.misuse (.hooksExpected Context.typeName)))

def notRecords (name : String) : String × Member :=
  member (.failing name (.malformed (.notList Context.typeName)))

def restore : String × Member := notRecords "restore"

def dump : String × Member := member (.seeking "dump" "to_record")

def hookSet : String × Member := member (.making "HookSet")

def expression : String × Member :=
  member (.lacking "Expression" "Expression.__init__" ["operator", "value"])

def expressionContext : String × Member :=
  member (.lacking Context.typeName s!"{Context.typeName}.__init__" ["operator", "value"])

def slot : String × Member := member (.lacking "Slot" "Slot.__init__" ["payload"])

def hookSpec : String × Member :=
  member (.lacking "HookSpec" "HookSpec.__init__" ["handler", "slot"])

def hookDecorator : String × Member := member (.closed "hook")

def getRegistry : String × Member := member (.closed "get_registry")

def getConfig : String × Member := member (.closed "get_config")

def renderExpression : String × Member :=
  member (.lacking "render_expression" "render_expression" ["overrides", "node"])

def resolve : String × Member :=
  member (.lacking "resolve_hook" "resolve_hook" ["overrides", "node"])

def operator : String × Member := member (.vocabulary "Operator")

def joinOperator : String × Member := member (.vocabulary "JoinOperator")

def hookLayer : String × Member := member (.vocabulary "HookLayer")

def operatorSymbol : String × Member :=
  member (.ofText "operator_symbol" fun c => FilterTree.operatorSymbol <$> c.displayText)

def errorClass (name : String) : String × Member := member (.making name)

def contractError : String × Member := errorClass "ContractViolationError"

def any : String × Member := member (.mistyped "Any" "Any cannot be instantiated")

def literal : String × Member := member (.barren "Literal")

def union : String × Member := member (.barren "Union")

def callable : String × Member := member (.abstract "Callable")

def mapping : String × Member := member (.abstract "Mapping")

def dataclass : String × Member :=
  member (.failing "dataclass" (.other .frozen "cannot assign to field '__dataclass_params__'"))

def filePath : String × Member :=
  member (.mistyped "Path" s!"expected str, bytes or os.PathLike object, not {Context.typeName}")

def enum : String × Member := member (.mistyped "Enum" "<enum 'Enum'> has no members defined")

def readOnlyMapping : String × Member :=
  aka "MappingProxyType"
    (.mistyped "mappingproxy" s!"mappingproxy() argument must be a mapping, not {Context.typeName}")

def fixedMapping (name : String) : String × Member :=
  member (.mistyped name s!"'{Context.typeName}' object is not iterable")

def model (name : String) : String × Member := member (.closedClass name "BaseModel")

def fieldOfModel : String × Member := member (.making "Field")

def config : String × Member := member (.making "CondBuilderConfig")

/-! ### The modules -/

def all : List ImportModule :=
  [⟨"condbuilder", true,
    [condition, slot, expression, expressionContext, hookSet, operator, joinOperator, dump, restore,
      contractError] ++
      ["ConditionError", "ConfigurationError", "MalformedEncodingError", "SlotIndexError",
        "ValidationError"].map errorClass ++
      ["OPERATOR_SYMBOL", "__all__", "__path__", "condition", "config", "cli", "exceptions",
        "expression", "operators", "pipeline", "serializer"].map inert⟩,
   ⟨"condbuilder.condition", false,
    [member (.abstract "Iterator"), dataclass, any, union, contractError,
      errorClass "SlotIndexError", expression, joinOperator, operator, hookSet, asHookSet, slot,
      condition, aka "Payload" (.barren "Union")] ++
      ["annotations", "dataclasses", "logging", "TYPE_CHECKING", "logger", "_MISSING"].map inert⟩,
   ⟨"condbuilder.config", false,
    [callable, filePath, any, literal, fieldOfModel, member (.making "BaseSettings"),
      fixedMapping "SettingsConfigDict", errorClass "ConfigurationError", hookSet, getRegistry,
      config, getConfig, member (.closed "_discover_config"),
      member (.closed "clear_config_instance"),
      member ⟨"load_hook", fun c =>
        .fail (.other .type (match c.unfitPart? with
          | some type => s!"unhashable type: '{type}'"
          | none => s!"argument of type '{Context.typeName}' is not iterable"))⟩,
      member ⟨"set_config_instance", fun _ => do
        Outcome.emit .displaced
        return .null⟩] ++
      ["importlib", "logging", "os", "threading", "yaml", "CAMEL_CASE_NAMES", "HOOK_NAMES",
        "logger", "CONFIG_FILENAME", "_config_instance", "_config_lock"].map inert⟩,
   ⟨"condbuilder.cli", false,
    [aka "builtin_print" ⟨"print", fun c => do
        let shown ← c.displayText
        Outcome.emit (.printed shown)
        return .null⟩,
      filePath, literal, member (.mistyped "Annotated" "Type Annotated cannot be instantiated."),
      member (.closedClass "Console" "Console"),
      member (.mistyped "escape"
        s!"expected string or bytes-like object, got '{Context.typeName}'"),
      member (.making "Tree"), condition, config, getConfig, errorClass "ConditionError", hookSet,
      dump, restore, member (.making "Render"), member (.making "Show"), member (.making "Convert"),
      aka "Command" (.barren "Union"), member (.silent "setup_logging"),
      member (.seeking "read_input" "exists"),
      member (.mistyped "load_config"
        s!"unsupported operand type(s) for /: '{Context.typeName}' and 'str'"),
      member (.seeking "build_tree" "slots"),
      member (.lacking "_add_slots" "_add_slots" ["condition", "hooks"]),
      member ⟨"main", fun _ => do
        Outcome.emit .consulted
        return .null⟩,
      member (.closed "entry_point")] ++
      ["handle_render", "handle_show", "handle_convert"].map
        (fun name => member (.lacking name name ["cmd"])) ++
      ["logging", "sys", "attrs", "tyro", "CONFIG_FILENAME"].map inert⟩,
   ⟨"condbuilder.exceptions", false,
    contractError :: inert "annotations" ::
      ["ConditionError", "ValidationError", "MalformedEncodingError", "SlotIndexError",
        "ConfigurationError"].map errorClass⟩,
   ⟨"condbuilder.expression", false,
    [any, errorClass "ValidationError", operator, expressionContext, hookSet, asHookSet,
      renderExpression, expression,
      member ⟨"normalize_value", fun _ => pure (.foreign Context.typeName .null)⟩] ++
      ["annotations", "copy", "logging", "logger"].map inert⟩,
   ⟨"condbuilder.operators", false,
    [enum, readOnlyMapping, contractError, operator, operatorSymbol, joinOperator,
      inert "annotations", inert "OPERATOR_SYMBOL"]⟩,
   ⟨"condbuilder.serializer", false,
    [mapping, member (.abstract "Sequence"), any, literal, union, model "BaseModel",
      fixedMapping "ConfigDict", fieldOfModel, member (.seeking "TypeAdapter" "__mro__"),
      member (.closed "model_validator"),
      aka "PydanticValidationError"
        (.mistyped "ValidationError" "No constructor defined for ValidationError"),
      condition, contractError, errorClass "MalformedEncodingError", joinOperator, hookSet,
      asHookSet, aka "Format" (.barren "Literal"), aka "Encoded" (.barren "Union"),
      model "ExpressionRecord", model "SlotRecord", dump, notRecords "decode",
      member (.lacking "_load_text" "_load_text" ["fmt"]),
      restore, member (.lacking "_replay" "_replay" ["hooks"])] ++
      ["annotations", "json", "logging", "yaml", "logger", "FORMATS", "_records_adapter"].map
        inert⟩,
   ⟨"condbuilder.pipeline", true,
    [expressionContext, hookSet, hookSpec, asHookSet, getRegistry, hookDecorator, hookLayer,
      renderExpression, resolve] ++
      ["EMPTY_HOOKS", "BUILTIN_HOOKS", "__all__", "__path__", "context", "hooks", "overrides"].map
        inert⟩,
   ⟨"condbuilder.pipeline.context", false,
    [dataclass, any, expressionContext, inert "annotations", inert "TYPE_CHECKING"]⟩,
   ⟨"condbuilder.pipeline.hook", false,
    [callable, mapping, dataclass, member (.closed "field"), any, contractError, hookSet, asHookSet,
      hookSpec, member (.closedClass "_HookRegistry" "_HookRegistry"), getRegistry, hookDecorator,
      member (.lacking "create_hook_spec" "create_hook_spec" ["handler"])] ++
      ["Validator", "Renderer", "RendererMaybe", "HandlerFn"].map
        (fun name => aka name (.abstract "Callable")) ++
      ["annotations", "dataclasses", "TYPE_CHECKING", "HOOK_NAMES", "CAMEL_CASE_NAMES",
        "EMPTY_HOOKS", "_registry"].map inert⟩,
   ⟨"condbuilder.pipeline.overrides", false,
    [callable, enum, readOnlyMapping, any, operatorSymbol, hookLayer, resolve, renderExpression] ++
      [Builtin.renderKey, Builtin.renderValue, Builtin.renderOperator].map member ++
      ["annotations", "logging", "TYPE_CHECKING", "logger", "BUILTIN_HOOKS"].map inert⟩,
   ⟨"condbuilder.pipeline.hooks", true,
    keyWhitelist :: hookSet :: member (.closed "postgres_hooks") :: quoting ++
      ["annotations", "__all__", "__path__", "quoting"].map inert⟩,
   ⟨"condbuilder.pipeline.hooks.key_whitelist", false,
    [keyWhitelist, any, errorClass "ValidationError", hookDecorator] ++
      ["annotations", "logging", "TYPE_CHECKING", "logger"].map inert⟩,
   ⟨"condbuilder.pipeline.hooks.quoting", false,
    quoting ++ [any, hookDecorator,
      member (.ofText "quote_identifier_text" fun c => delimited '"' <$> c.displayText),
      member (.ofText "quote_literal_text" fun c => delimited '\'' <$> c.displayText),
      inert "annotations", inert "TYPE_CHECKING"]⟩]

def find? (path : String) : Option ImportModule :=
  all.find? (·.path == path)

def member? (m : ImportModule) (name : String) : Option Member :=
  ((m.members ++ ownMembers).find? (·.1 == name)).map (·.2)

end ImportModule

end FilterTree
