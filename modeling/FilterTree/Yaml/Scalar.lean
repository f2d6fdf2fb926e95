import FilterTree.Yaml.Cursor

/-! Scalars as they are spelled: in single or double quotes, plain, or as a block of lines. Each
reader begins at the scalar and gives its text with the place after it. -/

namespace FilterTree.Yaml

/-- What a line break inside a folded text becomes: a space, unless blank lines follow or the break
is of the uncommon kind. -/
def fold (lineBreak : Char) (blankLines : List Char) : List Char :=
  if lineBreak ≠ '\n' then lineBreak :: blankLines
  else if blankLines.isEmpty then [' ']
  else blankLines

namespace Quoted

def blankLines : Nat → Cursor → Except Failure (List Char × Cursor)
  | 0, c => .ok ([], c)
  | fuel + 1, c =>
    if atMarker c.rest then .error .invalid
    else
      let c := c.skip isBlank
      match c.takeBreak? with
      | none => .ok ([], c)
      | some (b, c) => do
        let (bs, c) ← blankLines fuel c
        return (b :: bs, c)

def blanks (c : Cursor) : Except Failure (List Char × Cursor) :=
  let (run, after) := c.span isBlank
  match after.takeBreak? with
  | none => .ok (run, after)
  | some (b, next) => do
    let (bs, next) ← blankLines (next.rest.length + 1) next
    return (fold b bs, next)

def shortEscape? : Char → Option Char
  | '0' => some '\x00'
  | 'a' => some '\x07'
  | 'b' => some '\x08'
  | 't' => some '\t'
  | '\t' => some '\t'
  | 'n' => some '\n'
  | 'v' => some '\x0b'
  | 'f' => some '\x0c'
  | 'r' => some '\r'
  | 'e' => some '\x1b'
  | ' ' => some ' '
  | '"' => some '"'
  | '\\' => some '\\'
  | '/' => some '/'
  | 'N' => some '\x85'
  | '_' => some '\xa0'
  | 'L' => some '\u2028'
  | 'P' => some '\u2029'
  | _ => none

def codeLength? : Char → Option Nat
  | 'x' => some 2
  | 'u' => some 4
  | 'U' => some 8
  | _ => none

def escape (c : Cursor) : Except Failure (List Char × Cursor) :=
  match c.rest with
  | [] => .error .invalid
  | e :: rest =>
    match shortEscape? e with
    | some ch => .ok ([ch], c.next)
    | none =>
      match codeLength? e with
      | some n =>
        match hexNumber? n rest with
        | none => .error .invalid
        | some code => do
          let ch ← charOfCode code
          return ([ch], c.advance (n + 1))
      | none =>
        match c.takeBreak? with
        | none => .error .invalid
        | some (_, c) => blankLines (c.rest.length + 1) c

def body (double : Bool) : Nat → List Char → Cursor → Except Failure (String × Cursor)
  | 0, _, _ => .error .invalid
  | fuel + 1, done, c =>
    match c.rest with
    | [] => .error .invalid
    | ch :: rest =>
      if isBlank ch || isBreak ch then do
        let (run, c) ← blanks c
        body double fuel (run.reverse ++ done) c
      else if double then
        if ch = '"' then .ok (String.ofList done.reverse, c.next)
        else if ch = '\\' then do
          let (run, c) ← escape c.next
          body double fuel (run.reverse ++ done) c
        else body double fuel (ch :: done) c.next
      else if ch = '\'' then
        if rest.head? = some '\'' then body double fuel ('\'' :: done) (c.advance 2)
        else .ok (String.ofList done.reverse, c.next)
      else body double fuel (ch :: done) c.next

def read (c : Cursor) : Except Failure (String × Cursor) :=
  body (c.rest.head? = some '"') (c.rest.length + 1) [] c.next

end Quoted

namespace Plain

/-- The characters of a plain scalar up to a blank. A colon ends it before a blank, and within a
flow collection so do the marks of one. -/
def run (flow : Bool) : List Char → List Char
  | [] => []
  | ch :: rest =>
    if isBlank ch || isBreak ch then []
    else if ch = ':' &&
        (startsBlank rest || (flow && startsWith (",[]\x7b\x7d".toList.contains ·) rest)) then
      []
    else if flow && ",?[]\x7b\x7d".toList.contains ch then []
    else ch :: run flow rest

def blankLines? : Nat → Cursor → Option (List Char) × Cursor
  | 0, c => (some [], c)
  | fuel + 1, c =>
    if atMarker c.rest then (none, c)
    else
      let c := c.skipSpaces
      match c.takeBreak? with
      | none => (some [], c)
      | some (b, c) =>
        let (bs, c) := blankLines? fuel c
        (bs.map (b :: ·), c)

def blanks (c : Cursor) : List Char × Cursor × Bool :=
  let (spaces, after) := c.span (· = ' ')
  match after.takeBreak? with
  | none => (spaces, after, false)
  | some (b, next) =>
    let (bs, next) := blankLines? (next.rest.length + 1) next
    ((bs.map (fold b)).getD [], next, true)

def body (flow : Bool) (least : Int) :
    Nat → List Char → List Char → Bool → Cursor → String × Cursor × Bool
  | 0, done, _, ended, c => (String.ofList done, c, ended)
  | fuel + 1, done, spaces, ended, c =>
    let text := run flow c.rest
    if c.rest.head? = some '#' || text.isEmpty then (String.ofList done, c, ended)
    else
      let done := done ++ spaces ++ text
      let (spaces, c, ended) := blanks (c.advance text.length)
      if spaces.isEmpty || c.rest.head? = some '#' || (!flow && (c.column : Int) < least) then
        (String.ofList done, c, ended)
      else body flow least fuel done spaces ended c

/-- Reads a plain scalar whose further lines stand at column `least` or beyond. The flag tells
whether a line ended after its last character. -/
def read (flow : Bool) (least : Int) (c : Cursor) : String × Cursor × Bool :=
  body flow least (c.rest.length + 1) [] [] false c

end Plain

namespace Block

inductive Chomp where
  | clip | strip | keep
  deriving DecidableEq, Repr

def chomp? : Char → Option Chomp
  | '+' => some .keep
  | '-' => some .strip
  | _ => none

def digit? (c : Char) : Option Nat :=
  if c.isDigit then some (c.toNat - '0'.toNat) else none

def header (c : Cursor) : Except Failure (Chomp × Option Nat × Cursor) := do
  let first := c.rest.head?
  let (chomp, increment, c) :=
    match first.bind chomp? with
    | some k =>
      match c.next.rest.head?.bind digit? with
      | some d => (k, some d, c.advance 2)
      | none => (k, none, c.next)
    | none =>
      match first.bind digit? with
      | some d =>
        match c.next.rest.head?.bind chomp? with
        | some k => (k, some d, c.advance 2)
        | none => (.clip, some d, c.next)
      | none => (.clip, none, c)
  if increment = some 0 || !startsSpace c.rest then .error .invalid
  else return (chomp, increment, ← c.endLine)

def skipIndent (indent : Nat) (c : Cursor) : Cursor :=
  c.advance (min (indent - c.column) (c.rest.takeWhile (· = ' ')).length)

def blankLines (indent : Nat) : Nat → Cursor → List Char × Cursor
  | 0, c => ([], c)
  | fuel + 1, c =>
    let c := skipIndent indent c
    match c.takeBreak? with
    | none => ([], c)
    | some (b, c) =>
      let (bs, c) := blankLines indent fuel c
      (b :: bs, c)

/-- The breaks of blank lines before the first line with text, and the deepest column among all of
these lines. -/
def leadingLines : Nat → Nat → Cursor → List Char × Nat × Cursor
  | 0, deepest, c => ([], deepest, c)
  | fuel + 1, deepest, c =>
    let (spaces, c) := c.span (· = ' ')
    let deepest := if spaces.isEmpty then deepest else max deepest c.column
    match c.takeBreak? with
    | none => ([], deepest, c)
    | some (b, c) =>
      let (bs, deepest, c) := leadingLines fuel deepest c
      (b :: bs, deepest, c)

/-- The lines of a block: its text, the break after the last line, the blank lines after that, and
the place. Folding joins two lines of text that both begin without a blank. -/
def lines (folded : Bool) (indent : Nat) :
    Nat → List Char → Cursor → List Char × Option Char × List Char × Cursor
  | 0, breaks, c => ([], none, breaks, c)
  | fuel + 1, breaks, c =>
    if c.column ≠ indent || c.rest.isEmpty then ([], none, breaks, c)
    else
      let flush := !startsWith isBlank c.rest
      let (text, c) := c.span (!isBreak ·)
      let (lineBreak, c) := match c.takeBreak? with
        | some (b, c) => (some b, c)
        | none => (none, c)
      let (following, c) := blankLines indent (c.rest.length + 1) c
      if c.column = indent && !c.rest.isEmpty then
        let between :=
          if folded && lineBreak = some '\n' && flush && !startsWith isBlank c.rest then
            if following.isEmpty then [' '] else []
          else lineBreak.toList
        let (more, last, trailing, c) := lines folded indent fuel following c
        (breaks ++ text ++ between ++ more, last, trailing, c)
      else (breaks ++ text, lineBreak, following, c)

def read (outer : Int) (c : Cursor) : Except Failure (String × Cursor) := do
  let folded := c.rest.head? = some '>'
  let (chomp, increment, c) ← header c.next
  let least := (max (outer + 1) 1).toNat
  let fuel := c.rest.length + 1
  let (breaks, indent, c) :=
    match increment with
    | some n =>
      let indent := least + n - 1
      let (breaks, c) := blankLines indent fuel c
      (breaks, indent, c)
    | none =>
      let (breaks, deepest, c) := leadingLines fuel 0 c
      (breaks, max least deepest, c)
  let (text, last, trailing, c) := lines folded indent fuel breaks c
  let tail := match chomp with
    | .strip => []
    | .clip => last.toList
    | .keep => last.toList ++ trailing
  return (String.ofList (text ++ tail), c)

end Block

end FilterTree.Yaml
