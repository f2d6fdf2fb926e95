import FilterTree.Yaml.Token
import FilterTree.Yaml.Tag

/-! A document as a table of tagged nodes. A node names what it holds by numbers, so that one node
may stand in several places, also inside itself: an alias is the number of the node it names. -/

namespace FilterTree.Yaml

inductive Content where
  | scalar (text : String)
  | sequence (items : List Nat)
  | mapping (entries : List (Nat × Nat))
  deriving Inhabited

structure Node where
  tag : String
  content : Content
  deriving Inhabited

structure Composer where
  tokens : List Token
  failure : Option Failure
  handles : List (String × String)
  anchors : List (String × Nat)
  nodes : Array Node

abbrev Compose := StateT Composer (Except Failure)

namespace Compose

def invalid {α : Type} : Compose α :=
  throw .invalid

def peek : Compose Token := do
  let s ← get
  match s.tokens with
  | t :: _ => return t
  | [] => throw (s.failure.getD .invalid)

def drop : Compose Unit :=
  modify fun s => { s with tokens := s.tokens.drop 1 }

def accept (t : Token) : Compose Bool := do
  if (← peek) = t then
    drop
    return true
  else return false

def expect (t : Token) : Compose Unit := do
  if !(← accept t) then invalid

def nextIsOneOf (ts : List Token) : Compose Bool :=
  return ts.contains (← peek)

def enter (n : Node) : Compose Nat :=
  modifyGet fun s => (s.nodes.size, { s with nodes := s.nodes.push n })

def complete (number : Nat) (c : Content) : Compose Unit :=
  modify fun s => { s with nodes := s.nodes.modify number ({ · with content := c }) }

def emptyNode : Compose Nat :=
  enter ⟨Tags.null, .scalar ""⟩

def nodeOf (name : String) : Compose Nat := do
  match (← get).anchors.find? (·.1 = name) with
  | some (_, n) => return n
  | none => invalid

def remember (name : Option String) (number : Nat) : Compose Unit :=
  match name with
  | none => return ()
  | some name => modify fun s => { s with anchors := (name, number) :: s.anchors }

def properties : Compose (Option String × Option Tag) := do
  match ← peek with
  | .anchor a =>
    drop
    match ← peek with
    | .tag t =>
      drop
      return (some a, some t)
    | _ => return (some a, none)
  | .tag t =>
    drop
    match ← peek with
    | .anchor a =>
      drop
      return (some a, some t)
    | _ => return (none, some t)
  | _ => return (none, none)

def fullTag (t : Option Tag) : Compose (Option String) := do
  match t with
  | none => return none
  | some ⟨none, suffix⟩ => return some suffix
  | some ⟨some handle, suffix⟩ =>
    match (← get).handles.find? (·.1 = handle) with
    | some (_, expansion) => return some (expansion ++ suffix)
    | none => invalid

def isOpenTag (t : Option String) : Bool :=
  t = none || t = some "!"

def collectionTag (given : Option String) (default : String) : String :=
  if isOpenTag given then default else given.getD default

def scalarTag (given : Option String) (isPlain : Bool) (text : String) : String :=
  match given with
  | none => if isPlain then tagOfSpelling text else Tags.str
  | some "!" => tagOfSpelling text
  | some t => t

mutual

/-- Reads a node. Block collections may begin here only if `block`, and a sequence at the column of
its mapping only if `indentless`. A collection has its name while its content is read. -/
def node (block indentless : Bool) : Nat → Compose Nat
  | 0 => invalid
  | fuel + 1 => do
    match ← peek with
    | .alias name =>
      drop
      nodeOf name
    | _ =>
      let (anchor, tag) ← properties
      let tag ← fullTag tag
      let known := (← get).anchors
      let isNew := anchor.all fun a => !known.any (·.1 = a)
      let t ← peek
      let scalar (n : Node) : Compose Nat := do
        if !isNew then invalid
        else
          let number ← enter n
          remember anchor number
          return number
      let sequence (read : Compose (List Nat)) : Compose Nat := do
        let number ← scalar ⟨collectionTag tag Tags.seq, .sequence []⟩
        complete number (.sequence (← read))
        return number
      let mapping (read : Compose (List (Nat × Nat))) : Compose Nat := do
        let number ← scalar ⟨collectionTag tag Tags.map, .mapping []⟩
        complete number (.mapping (← read))
        return number
      if indentless && t = .blockEntry then sequence (indentlessItems fuel)
      else
        match t with
        | .scalar text isPlain =>
          drop
          scalar ⟨scalarTag tag isPlain text, .scalar text⟩
        | .flowSequence =>
          drop
          sequence (flowItems true fuel)
        | .flowMapping =>
          drop
          mapping (flowEntries true fuel)
        | t =>
          if block && t = .blockSequence then
            drop
            sequence (blockItems fuel)
          else if block && t = .blockMapping then
            drop
            mapping (blockEntries fuel)
          else if anchor.isSome || tag.isSome then scalar ⟨scalarTag tag true "", .scalar ""⟩
          else invalid

def nodeUnless (ends : List Token) (block indentless : Bool) : Nat → Compose Nat
  | 0 => invalid
  | fuel + 1 => do
    if ← nextIsOneOf ends then emptyNode else node block indentless fuel

def blockItems : Nat → Compose (List Nat)
  | 0 => invalid
  | fuel + 1 => do
    if ← accept .blockEntry then
      let n ← nodeUnless [.blockEntry, .blockEnd] true false fuel
      return n :: (← blockItems fuel)
    else
      expect .blockEnd
      return []

def indentlessItems : Nat → Compose (List Nat)
  | 0 => invalid
  | fuel + 1 => do
    if ← accept .blockEntry then
      let n ← nodeUnless [.blockEntry, .key, .value, .blockEnd] true false fuel
      return n :: (← indentlessItems fuel)
    else return []

def blockEntries : Nat → Compose (List (Nat × Nat))
  | 0 => invalid
  | fuel + 1 => do
    let ends : List Token := [.key, .value, .blockEnd]
    if ← accept .key then
      let k ← nodeUnless ends true true fuel
      let v ← if ← accept .value then nodeUnless ends true true fuel else emptyNode
      return (k, v) :: (← blockEntries fuel)
    else
      expect .blockEnd
      return []

def flowValue (close : Token) : Nat → Compose Nat
  | 0 => invalid
  | fuel + 1 => do
    if ← accept .value then nodeUnless [.flowEntry, close] false false fuel else emptyNode

def flowItems (first : Bool) : Nat → Compose (List Nat)
  | 0 => invalid
  | fuel + 1 => do
    if ← accept .flowSequenceEnd then return []
    else
      if !first then expect .flowEntry
      if ← accept .key then
        let k ← nodeUnless [.value, .flowEntry, .flowSequenceEnd] false false fuel
        let v ← flowValue .flowSequenceEnd fuel
        let pair ← enter ⟨Tags.map, .mapping [(k, v)]⟩
        return pair :: (← flowItems false fuel)
      else if ← accept .flowSequenceEnd then return []
      else
        let n ← node false false fuel
        return n :: (← flowItems false fuel)

def flowEntries (first : Bool) : Nat → Compose (List (Nat × Nat))
  | 0 => invalid
  | fuel + 1 => do
    if ← accept .flowMappingEnd then return []
    else
      if !first then expect .flowEntry
      if ← accept .key then
        let k ← nodeUnless [.value, .flowEntry, .flowMappingEnd] false false fuel
        let v ← flowValue .flowMappingEnd fuel
        return (k, v) :: (← flowEntries false fuel)
      else if ← accept .flowMappingEnd then return []
      else
        let k ← node false false fuel
        let v ← emptyNode
        return (k, v) :: (← flowEntries false fuel)

end

def directives (hasVersion : Bool) : Nat → Compose Unit
  | 0 => invalid
  | fuel + 1 => do
    match ← peek with
    | .directive d =>
      drop
      match d with
      | .version major => if hasVersion || major ≠ 1 then invalid else directives true fuel
      | .handle name expansion =>
        if (← get).handles.any (·.1 = name) then invalid
        else
          modify fun s => { s with handles := s.handles ++ [(name, expansion)] }
          directives hasVersion fuel
      | .reserved => directives hasVersion fuel
    | _ => modify fun s => { s with handles := s.handles ++ [("!", "!"), ("!!", Tags.common "")] }

def skipDocumentEnds : Nat → Compose Unit
  | 0 => return ()
  | fuel + 1 => do if ← accept .documentEnd then skipDocumentEnds fuel

def document (fuel : Nat) : Compose (Option Nat) := do
  match ← peek with
  | .streamEnd => return none
  | first =>
    let explicit := match first with
      | .directive _ | .documentStart => true
      | _ => false
    directives false fuel
    if explicit then expect .documentStart
    let n ← if explicit then do
        match ← peek with
        | .directive _ | .documentStart | .documentEnd | .streamEnd => emptyNode
        | _ => node true false fuel
      else node true false fuel
    skipDocumentEnds fuel
    expect .streamEnd
    return some n

end Compose

def Node.ofTokens (ts : Tokens) : Except Failure (Array Node × Option Nat) :=
  ((Compose.document (4 * ts.list.length + 8)).run ⟨ts.list, ts.failure, [], [], #[]⟩).map
    fun (root, s) => (s.nodes, root)

end FilterTree.Yaml
