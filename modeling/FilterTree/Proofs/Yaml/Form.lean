import FilterTree.Proofs.Yaml.Marked

/-! The form of a document: what its tokens spell. -/

namespace FilterTree.Yaml

/-- A scalar, with its name or its tag where one stands before it, the name of one that came before,
or a collection of forms. An entry tells of its value whether it is open: under the key of a mapping
a sequence needs no begin and no end of its own. -/
inductive Form where
  | scalar (text : String) (isPlain : Bool)
  | named (name text : String) (isPlain : Bool)
  | binary (text : String)
  | alias (name : String)
  | sequence (items : List Form)
  | mapping (entries : List (Form × Bool × Form))

namespace Form

mutual

def tokens (isOpen : Bool) : Form → List Token
  | .scalar text isPlain => [.scalar text isPlain]
  | .named name text isPlain => [.anchor name, .scalar text isPlain]
  | .binary text => [.tag binaryTag, .scalar text false]
  | .alias name => [.alias name]
  | .sequence items =>
    if items.isEmpty then [.flowSequence, .flowSequenceEnd]
    else if isOpen then itemTokens items
    else .blockSequence :: itemTokens items ++ [.blockEnd]
  | .mapping entries =>
    if entries.isEmpty then [.flowMapping, .flowMappingEnd]
    else .blockMapping :: entryTokens entries ++ [.blockEnd]

def itemTokens : List Form → List Token
  | [] => []
  | x :: xs => .blockEntry :: tokens false x ++ itemTokens xs

def entryTokens : List (Form × Bool × Form) → List Token
  | [] => []
  | (k, isOpen, v) :: es =>
    .key :: (tokens false k ++ .value :: tokens isOpen v) ++ entryTokens es

end

end Form

end FilterTree.Yaml
