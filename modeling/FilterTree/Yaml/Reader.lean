import FilterTree.Yaml.Merge
import FilterTree.Yaml.Literal
import FilterTree.Value.Linked
import FilterTree.Value.Listing

/-! Reading YAML text as a value. What a node stands for is decided by its tag. A node has one
value, however many places it stands in. Collections are entered before they are filled, and filled
in the order in which they were entered. -/

namespace FilterTree.Yaml

def isCollectionTag (tag : String) : Bool :=
  [Tags.seq, Tags.map, Tags.set, Tags.omap, Tags.pairs].contains tag

/-- The nodes of a document with the values made so far. `waiting` are the nodes of collections that
are entered and not yet filled, each with the number of its collection. -/
structure Builder where
  nodes : Array Node
  made : Array (Option Item)
  collections : Array Holding
  waiting : List (Nat × Nat)

abbrev Build := StateT Builder (Except Failure)

namespace Build

def invalid {α : Type} : Build α :=
  throw .invalid

def nodeAt (n : Nat) : Build Node :=
  return ((← get).nodes[n]?).getD default

def text : Nat → Nat → Build String
  | 0, _ => throw (.other .recursion)
  | fuel + 1, n => do
    match (← nodeAt n).content with
    | .scalar s => return s
    | .sequence _ => invalid
    | .mapping es =>
      let nodes := (← get).nodes
      match es.find? fun e => (nodes[e.1]?).any (·.tag = Tags.value) with
      | some (_, v) => text fuel v
      | none => invalid

def scalar (n : Nat) : Build Value := do
  let node ← nodeAt n
  if !Scalar.tags.contains node.tag then invalid
  else
    let s ← text ((← get).nodes.size + 1) n
    match node.content with
    | .scalar _ => Scalar.read n node.tag s
    | _ => if node.tag = Tags.timestamp then throw (.other .type) else Scalar.read n node.tag s

def item (n : Nat) : Build Item := do
  match (← get).made[n]? with
  | some (some i) => return i
  | _ =>
    let i ← if isCollectionTag (← nodeAt n).tag then
        modifyGet fun b => (Item.collection b.collections.size,
          { b with
            collections := b.collections.push (.list [])
            waiting := b.waiting ++ [(n, b.collections.size)] })
      else pure (.value (← scalar n))
    modify fun b => { b with made := b.made.setIfInBounds n (some i) }
    return i

def mergedEntries (n : Nat) : Build (List (Nat × Nat)) := do
  let b ← get
  let (es, nodes) ← (Merge.entriesOf n).run b.nodes
  set { b with nodes := nodes }
  return es

/-- Puts an item under a key. The value of one node is one key, whatever it is; otherwise an equal
key keeps its place and its own form. -/
def insertKey (entries : List (Nat × Value × Item)) (n : Nat) (k : Value) (i : Item) :
    List (Nat × Value × Item) :=
  let isIt (e : Nat × Value × Item) : Bool := e.1 == n || e.2.1.same true k
  if entries.any isIt then entries.map fun e => if isIt e then (e.1, e.2.1, i) else e
  else entries ++ [(n, k, i)]

def entries (n : Nat) : Build (List (Value × Item)) := do
  let each ← (← mergedEntries n).foldlM (fun (found : List (Nat × Value × Item)) (k, v) => do
    match ← item k with
    | .value key => return insertKey found k key (← item v)
    | _ => invalid) []
  return each.map (·.2)

def pair (n : Nat) : Build Item := do
  match (← nodeAt n).content with
  | .mapping [(k, v)] =>
    let first ← item k
    return .pair first (← item v)
  | _ => invalid

def holding (n : Nat) : Build Holding := do
  let node ← nodeAt n
  if node.tag = Tags.map then return .map (← entries n)
  else if node.tag = Tags.set then return .set (Value.listedKeys ((← entries n).map (·.1)))
  else
    match node.content with
    | .sequence items => return .list (← items.mapM (if node.tag = Tags.seq then item else pair))
    | _ => invalid

def fill : Nat → Build Unit
  | 0 => return ()
  | fuel + 1 => do
    match (← get).waiting with
    | [] => return ()
    | (n, c) :: rest =>
      modify ({ · with waiting := rest })
      let h ← holding n
      modify fun b => { b with collections := b.collections.setIfInBounds c h }
      fill fuel

def document (root : Nat) : Build Linked := do
  let i ← item root
  fill ((← get).nodes.size + 1)
  return ⟨(← get).collections, i⟩

end Build

def read (s : String) : Except Failure Linked := do
  match ← Node.ofTokens (.ofChars s.toList) with
  | (_, none) => return .ofValue .null
  | (nodes, some root) =>
    ((Build.document root).run ⟨nodes, Array.replicate nodes.size none, #[], []⟩).map (·.1)

end FilterTree.Yaml
