import FilterTree.Yaml.Node

/-! Merge keys: a mapping takes in the entries of the mappings under them. Merging is done once for
each node, when it is first looked into, and whoever looks at the node later finds it merged. -/

namespace FilterTree.Yaml

abbrev Merge := StateT (Array Node) (Except Failure)

namespace Merge

def content (n : Nat) : Merge Content :=
  return ((← get)[n]?).elim (.scalar "") (·.content)

def tag (n : Nat) : Merge String :=
  return ((← get)[n]?).elim "" (·.tag)

def entries (n : Nat) : Merge (List (Nat × Nat)) := do
  match ← content n with
  | .mapping es => return es
  | _ => return []

def setEntries (n : Nat) (es : List (Nat × Nat)) : Merge Unit :=
  modify (·.modify n ({ · with content := .mapping es }))

def retag (n : Nat) : Merge Unit :=
  modify (·.modify n fun node =>
    if node.tag = Tags.value then { node with tag := Tags.str } else node)

def place? (es : List (Nat × Nat)) : Merge (Option Nat) := do
  let nodes ← get
  return es.findIdx? fun e => (nodes[e.1]?).any (·.tag = Tags.merge)

mutual

/-- Merges a mapping from the entry at `start` on, where `added` is what earlier merge keys have
brought. What merge keys bring comes before the entries the mapping has of its own. -/
def mergeFrom : Nat → Nat → Nat → List (Nat × Nat) → Merge Unit
  | 0, _, _, _ => throw .invalid
  | fuel + 1, n, start, added => do
    let es ← entries n
    let rest := es.drop start
    match ← place? rest with
    | none =>
      rest.forM fun e => retag e.1
      if !added.isEmpty then setEntries n (added ++ es)
    | some i =>
      (rest.take i).forM fun e => retag e.1
      setEntries n (es.eraseIdx (start + i))
      let more ← broughtBy fuel ((rest[i]?).elim 0 (·.2))
      mergeFrom fuel n (start + i) (added ++ more)

def mergedEntries : Nat → Nat → Merge (List (Nat × Nat))
  | 0, _ => throw .invalid
  | fuel + 1, n => do
    match ← content n with
    | .mapping _ =>
      mergeFrom fuel n 0 []
      entries n
    | _ => throw .invalid

def broughtBy : Nat → Nat → Merge (List (Nat × Nat))
  | 0, _ => throw .invalid
  | fuel + 1, n => do
    match ← content n with
    | .mapping _ => mergedEntries fuel n
    | .sequence items =>
      let lists ← items.mapM (mergedEntries fuel)
      return lists.reverse.flatten
    | .scalar _ => throw .invalid

end

/-- Enough for all merge keys of a table, each of which is dealt with once. -/
def enough (nodes : Array Node) : Nat :=
  nodes.foldl (fun sum n => match n.content with
    | .mapping es => sum + 3 * es.length
    | _ => sum) 3

def entriesOf (n : Nat) : Merge (List (Nat × Nat)) := do
  mergedEntries (enough (← get)) n

end Merge

end FilterTree.Yaml
