import FilterTree.Yaml.Cursor

/-! The marks that stand before a node, and the directives that stand before a document: anchors and
aliases, tags, and the handles that tags are shortened with. -/

namespace FilterTree.Yaml

def isWordChar (c : Char) : Bool :=
  c.isAlphanum || c = '-' || c = '_'

def readName (c : Cursor) : Except Failure (String × Cursor) :=
  let (name, c) := c.next.span isWordChar
  if name.isEmpty then .error .invalid
  else if startsBlank c.rest || startsWith ("?:,]\x7d%@`".toList.contains ·) c.rest then
    .ok (String.ofList name, c)
  else .error .invalid

def isUriChar (c : Char) : Bool :=
  c.isAlphanum || "-;/?:@&=+$,_.!~*'()[]".toList.contains c

def escapedBytes : Nat → List Char → Except Failure (List UInt8)
  | 0, _ => .ok []
  | fuel + 1, cs =>
    match cs with
    | '%' :: rest =>
      match hexNumber? 2 rest with
      | none => .error .invalid
      | some n => do
        let more ← escapedBytes fuel (rest.drop 2)
        return UInt8.ofNat n :: more
    | _ => .ok []

def uriChars : Nat → Cursor → Except Failure (List Char × Cursor)
  | 0, c => .ok ([], c)
  | fuel + 1, c =>
    match c.rest with
    | '%' :: _ => do
      let bytes ← escapedBytes (c.rest.length + 1) c.rest
      match String.fromUTF8? ⟨bytes.toArray⟩ with
      | none => .error .invalid
      | some s =>
        let (more, c) ← uriChars fuel (c.advance (3 * bytes.length))
        return (s.toList ++ more, c)
    | ch :: _ =>
      if isUriChar ch then do
        let (more, c) ← uriChars fuel c.next
        return (ch :: more, c)
      else .ok ([], c)
    | [] => .ok ([], c)

def readUri (c : Cursor) : Except Failure (String × Cursor) := do
  let start := c.rest.length
  let (cs, c) ← uriChars (start + 1) c
  if c.rest.length = start then .error .invalid else return (String.ofList cs, c)

def readHandle (c : Cursor) : Except Failure (String × Cursor) :=
  match c.rest with
  | '!' :: rest =>
    if rest.head? = some ' ' then .ok ("!", c.next)
    else
      let word := rest.takeWhile isWordChar
      match rest.drop word.length with
      | '!' :: _ => .ok (String.ofList ('!' :: word ++ ['!']), c.advance (word.length + 2))
      | _ => .error .invalid
  | _ => .error .invalid

structure Tag where
  handle : Option String
  suffix : String
  deriving DecidableEq, Repr

namespace Tag

def hasHandle (cs : List Char) : Bool :=
  (cs.takeWhile fun ch => !(ch = ' ' || isBreak ch)).contains '!'

def read (c : Cursor) : Except Failure (Tag × Cursor) := do
  let rest := c.rest.drop 1
  let (tag, c) ←
    if rest.head? = some '<' then do
      let (suffix, c) ← readUri (c.advance 2)
      if c.rest.head? = some '>' then pure (Tag.mk none suffix, c.next) else .error .invalid
    else if startsBlank rest then pure (Tag.mk none "!", c.next)
    else if hasHandle rest then do
      let (handle, c) ← readHandle c
      let (suffix, c) ← readUri c
      pure (Tag.mk (some handle) suffix, c)
    else do
      let (suffix, c) ← readUri c.next
      pure (Tag.mk (some "!") suffix, c)
  if startsSpace c.rest then return (tag, c) else .error .invalid

end Tag

inductive Directive where
  | version (major : Nat)
  | handle (name expansion : String)
  | reserved
  deriving DecidableEq, Repr

namespace Directive

def number (c : Cursor) : Except Failure (Nat × Cursor) :=
  let (ds, c) := c.span Char.isDigit
  if ds.isEmpty then .error .invalid
  else if 4300 < ds.length then .error (.other .value)
  else .ok (ds.foldl (fun n d => 10 * n + (d.toNat - '0'.toNat)) 0, c)

def readVersion (c : Cursor) : Except Failure (Directive × Cursor) := do
  let (major, c) ← number c.skipSpaces
  if c.rest.head? ≠ some '.' then .error .invalid
  else
    let (_, c) ← number c.next
    if startsSpace c.rest then return (.version major, c) else .error .invalid

def readHandleLine (c : Cursor) : Except Failure (Directive × Cursor) := do
  let (name, c) ← readHandle c.skipSpaces
  if c.rest.head? ≠ some ' ' then .error .invalid
  else
    let (expansion, c) ← readUri c.skipSpaces
    if startsSpace c.rest then return (.handle name expansion, c) else .error .invalid

def read (c : Cursor) : Except Failure (Directive × Cursor) := do
  let (name, c) := c.next.span isWordChar
  if name.isEmpty || !startsSpace c.rest then .error .invalid
  else
    let (d, c) ←
      if name = "YAML".toList then readVersion c
      else if name = "TAG".toList then readHandleLine c
      else pure (.reserved, c.skip (!isBreak ·))
    return (d, ← c.endLine)

end Directive

end FilterTree.Yaml
