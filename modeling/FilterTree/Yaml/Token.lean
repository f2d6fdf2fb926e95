import FilterTree.Yaml.Scalar
import FilterTree.Yaml.Property

/-! The tokens of a document. Indentation becomes the begin and end of block collections here, and a
scalar turns out to be a key when the colon after it is met. -/

namespace FilterTree.Yaml

inductive Token where
  | directive (d : Directive)
  | documentStart
  | documentEnd
  | streamEnd
  | blockSequence
  | blockMapping
  | blockEnd
  | flowSequence
  | flowSequenceEnd
  | flowMapping
  | flowMappingEnd
  | blockEntry
  | flowEntry
  | key
  | value
  | alias (name : String)
  | anchor (name : String)
  | tag (t : Tag)
  | scalar (text : String) (isPlain : Bool)
  deriving DecidableEq, Repr

/-- A place at which a key may have begun: if its colon follows on the same line and not far off,
the token at `position` becomes its first one. In block context one at the column of the collection
has to be a key. -/
structure Candidate where
  level : Nat
  position : Nat
  isRequired : Bool
  index : Nat
  line : Nat
  column : Nat

/-- The state of the lexer. `indent` is the column of the innermost block collection, `outer` those
around it; `keyAllowed` tells whether a key may begin here. -/
structure Lexer where
  cursor : Cursor
  tokens : Array Token
  flow : Nat
  indent : Int
  outer : List Int
  keyAllowed : Bool
  candidates : List Candidate

namespace Lexer

def start (cs : List Char) : Lexer :=
  ⟨.start cs, #[], 0, -1, [], true, []⟩

def emit (x : Lexer) (t : Token) : Lexer :=
  { x with tokens := x.tokens.push t }

def splice (x : Lexer) (position : Nat) (t : Token) : Lexer :=
  let before := x.tokens.extract 0 position
  let after := x.tokens.extract position x.tokens.size
  { x with tokens := before.push t ++ after }

def isCurrent (x : Lexer) (k : Candidate) : Bool :=
  k.line == x.cursor.line && decide (x.cursor.index - k.index ≤ 1024)

/-- The farthest that keys reach is one line and 1024 characters. -/
def dropStale (x : Lexer) : Except Failure Lexer :=
  if x.candidates.any fun k => !x.isCurrent k && k.isRequired then .error .invalid
  else .ok { x with candidates := x.candidates.filter x.isCurrent }

def dropCandidate (x : Lexer) : Except Failure Lexer :=
  if x.candidates.any fun k => k.level == x.flow && k.isRequired then .error .invalid
  else .ok { x with candidates := x.candidates.filter (·.level != x.flow) }

def noteCandidate (x : Lexer) : Except Failure Lexer :=
  if !x.keyAllowed then .ok x
  else do
    let required := x.flow = 0 && x.indent = x.cursor.column
    let x ← x.dropCandidate
    let k : Candidate :=
      ⟨x.flow, x.tokens.size, required, x.cursor.index, x.cursor.line, x.cursor.column⟩
    return { x with candidates := x.candidates ++ [k] }

def closeBeyond (column : Int) : List Int → Lexer → Lexer
  | [], x => x
  | i :: outer, x =>
    if column < x.indent then
      closeBeyond column outer { x.emit .blockEnd with indent := i, outer := outer }
    else x

def close (x : Lexer) (column : Int) : Lexer :=
  if x.flow = 0 then closeBeyond column x.outer x else x

def opens (x : Lexer) (column : Nat) : Option Lexer :=
  if x.indent < column then some { x with indent := column, outer := x.indent :: x.outer } else none

def openHere (x : Lexer) (t : Token) : Except Failure Lexer :=
  if x.flow ≠ 0 then .ok x
  else if !x.keyAllowed then .error .invalid
  else match x.opens x.cursor.column with
    | some x => .ok (x.emit t)
    | none => .ok x

def take (x : Lexer) (n : Nat) (t : Token) : Lexer :=
  { x.emit t with cursor := x.cursor.advance n }

def skipLines : Nat → Lexer → Lexer
  | 0, x => x
  | fuel + 1, x =>
    let c := x.cursor.skipSpaces.skipComment
    match c.takeBreak? with
    | none => { x with cursor := c }
    | some (_, c) =>
      skipLines fuel { x with cursor := c, keyAllowed := x.keyAllowed || x.flow = 0 }

def skipBlank (x : Lexer) : Lexer :=
  let c := x.cursor
  let c := if c.index = 0 ∧ c.rest.head? = some '\ufeff' then c.next else c
  skipLines (c.rest.length + 1) { x with cursor := c }

def leaveDocument (x : Lexer) : Except Failure Lexer := do
  let x ← (x.close (-1)).dropCandidate
  return { x with keyAllowed := false }

def directive (x : Lexer) : Except Failure Lexer := do
  let x ← x.leaveDocument
  let (d, c) ← Directive.read x.cursor
  return { x.emit (.directive d) with cursor := c }

def marker (x : Lexer) (t : Token) : Except Failure Lexer := do
  let x ← x.leaveDocument
  return x.take 3 t

def openFlow (x : Lexer) (t : Token) : Except Failure Lexer := do
  let x ← x.noteCandidate
  return { x.take 1 t with flow := x.flow + 1, keyAllowed := true }

def closeFlow (x : Lexer) (t : Token) : Except Failure Lexer := do
  let x ← x.dropCandidate
  return { x.take 1 t with flow := x.flow - 1, keyAllowed := false }

def flowEntry (x : Lexer) : Except Failure Lexer := do
  let x ← x.dropCandidate
  return { x.take 1 .flowEntry with keyAllowed := true }

def blockEntry (x : Lexer) : Except Failure Lexer := do
  let x ← x.openHere .blockSequence
  let x ← x.dropCandidate
  return { x.take 1 .blockEntry with keyAllowed := true }

def key (x : Lexer) : Except Failure Lexer := do
  let x ← x.openHere .blockMapping
  let x ← x.dropCandidate
  return { x.take 1 .key with keyAllowed := x.flow = 0 }

/-- A colon: it turns the candidate of its level into a key, or stands for a value without one. -/
def value (x : Lexer) : Except Failure Lexer :=
  match x.candidates.find? (·.level == x.flow) with
  | some k =>
    let x := { x with candidates := x.candidates.filter (·.level != x.flow) }
    let x := x.splice k.position .key
    let x := if x.flow ≠ 0 then x else match x.opens k.column with
      | some x => x.splice k.position .blockMapping
      | none => x
    .ok { x.take 1 .value with keyAllowed := false }
  | none => do
    let x ← x.openHere .blockMapping
    let x ← x.dropCandidate
    return { x.take 1 .value with keyAllowed := x.flow = 0 }

def nodePart {α : Type} (x : Lexer) (read : Cursor → Except Failure (α × Cursor)) (t : α → Token) :
    Except Failure Lexer := do
  let x ← x.noteCandidate
  let (a, c) ← read x.cursor
  return { x.emit (t a) with cursor := c, keyAllowed := false }

def blockScalar (x : Lexer) : Except Failure Lexer := do
  let x ← x.dropCandidate
  let (text, c) ← Block.read x.indent x.cursor
  return { x.emit (.scalar text false) with cursor := c, keyAllowed := true }

def plainScalar (x : Lexer) : Except Failure Lexer := do
  let x ← x.noteCandidate
  let (text, c, ended) := Plain.read (x.flow ≠ 0) (x.indent + 1) x.cursor
  return { x.emit (.scalar text true) with cursor := c, keyAllowed := ended }

def beginsPlain (flow : Bool) : List Char → Bool
  | [] => false
  | ch :: rest =>
    if isBlank ch || isBreak ch then false
    else if !"-?:,[]\x7b\x7d#&*!|>'\"%@`".toList.contains ch then true
    else !startsBlank rest && (ch = '-' || (!flow && (ch = '?' || ch = ':')))

def next (x : Lexer) : Except Failure Lexer :=
  let c := x.cursor
  let inFlow := x.flow ≠ 0
  match c.rest with
  | [] => do
    let x ← (x.close (-1)).dropCandidate
    return { x.emit .streamEnd with candidates := [] }
  | ch :: rest =>
    if ch = '%' ∧ c.column = 0 then x.directive
    else if c.column = 0 ∧ atMarker c.rest then
      x.marker (if ch = '-' then .documentStart else .documentEnd)
    else if ch = '[' then x.openFlow .flowSequence
    else if ch = '\x7b' then x.openFlow .flowMapping
    else if ch = ']' then x.closeFlow .flowSequenceEnd
    else if ch = '\x7d' then x.closeFlow .flowMappingEnd
    else if ch = ',' then x.flowEntry
    else if ch = '-' ∧ startsBlank rest then x.blockEntry
    else if ch = '?' ∧ (inFlow ∨ startsBlank rest) then x.key
    else if ch = ':' ∧ (inFlow ∨ startsBlank rest) then x.value
    else if ch = '*' then x.nodePart readName .alias
    else if ch = '&' then x.nodePart readName .anchor
    else if ch = '!' then x.nodePart Tag.read .tag
    else if (ch = '|' ∨ ch = '>') ∧ !inFlow then x.blockScalar
    else if ch = '\'' ∨ ch = '"' then x.nodePart Quoted.read (.scalar · false)
    else if beginsPlain inFlow c.rest then x.plainScalar
    else .error .invalid

end Lexer

structure Tokens where
  list : List Token
  failure : Option Failure

namespace Lexer

/-- Tokens before a failure are of use only up to the first that may still turn out to begin a
key. -/
def stopped (x : Lexer) (f : Failure) : Tokens :=
  let settled := (x.candidates.map (·.position)).foldl min x.tokens.size
  ⟨x.tokens.toList.take settled, some f⟩

def run : Nat → Lexer → Tokens
  | 0, x => x.stopped .invalid
  | fuel + 1, x =>
    match x.dropStale with
    | .error f => x.stopped f
    | .ok x =>
      let step := do
        let skipped ← x.skipBlank.dropStale
        (skipped.close skipped.cursor.column).next
      match step with
      | .error f => x.stopped f
      | .ok y => if y.tokens.back? = some .streamEnd then ⟨y.tokens.toList, none⟩ else run fuel y

end Lexer

def Tokens.ofChars (cs : List Char) : Tokens :=
  if cs.all isAllowed then Lexer.run (cs.length + 2) (.start cs) else ⟨[], some .invalid⟩

end FilterTree.Yaml
