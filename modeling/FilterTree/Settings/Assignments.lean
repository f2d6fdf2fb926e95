import FilterTree.Text.Space

/-! Files of variables: an assignment a line, with comments, quotes, and references to what has been
assigned before. A line that is no assignment is passed over. -/

namespace FilterTree.Assignments

def isEnd (c : Char) : Bool :=
  c = '\n' || c = '\r'

def isGap (c : Char) : Bool :=
  isSpace c && !isEnd c

abbrev Part (α : Type) := Except (List Char) (α × List Char)

def skipExport (cs : List Char) : List Char :=
  let word := "export".toList
  if word.isPrefixOf cs && ((cs.drop word.length).head?).any isGap then
    (cs.drop word.length).dropWhile isGap
  else cs

def readName (cs : List Char) : Part (Option (List Char)) :=
  match cs with
  | '#' :: _ => .ok (none, cs)
  | '\'' :: rest =>
    let name := rest.takeWhile (· ≠ '\'')
    match name, rest.drop name.length with
    | _ :: _, _ :: after => .ok (some name, after)
    | _, _ => .error cs
  | cs =>
    let name := cs.takeWhile fun c => c ≠ '=' && c ≠ '#' && !isSpace c
    if name.isEmpty then .error cs else .ok (some name, cs.drop name.length)

/-- What stands before the closing quote and what stands after it. A quote behind a backslash closes
only if no other does. -/
def untilQuote? (quote : Char) : List Char → Option (List Char × List Char)
  | [] => none
  | [c] => if c = quote then some ([], []) else none
  | c :: d :: rest =>
    if c = quote then some ([], d :: rest)
    else if c = '\\' ∧ d = quote then
      match untilQuote? quote rest with
      | some (inner, after) => some (c :: d :: inner, after)
      | none => some ([c], rest)
    else (untilQuote? quote (d :: rest)).map fun (inner, after) => (c :: inner, after)

def escape? (quote c : Char) : Option Char :=
  if c = '\\' ∨ c = '\'' then some c
  else if quote ≠ '"' then none
  else match c with
    | '"' => some '"'
    | 'a' => some '\x07'
    | 'b' => some '\x08'
    | 'f' => some '\x0c'
    | 'n' => some '\n'
    | 'r' => some '\r'
    | 't' => some '\t'
    | 'v' => some '\x0b'
    | _ => none

def unescaped (quote : Char) : List Char → List Char
  | [] => []
  | [c] => [c]
  | c :: d :: rest =>
    match if c = '\\' then escape? quote d else none with
    | some e => e :: unescaped quote rest
    | none => c :: unescaped quote (d :: rest)

def withoutComment : List Char → List Char
  | [] => []
  | c :: rest =>
    if isSpace c && (rest.dropWhile isSpace).head? = some '#' then [] else c :: withoutComment rest

def readValue (cs : List Char) : Part (List Char) :=
  match cs with
  | '\'' :: rest | '"' :: rest =>
    let quote := cs.headD '"'
    match untilQuote? quote rest with
    | some (inner, after) => .ok (unescaped quote inner, after)
    | none => .error cs
  | cs =>
    let line := cs.takeWhile (!isEnd ·)
    .ok (dropSpaceEnd (withoutComment line), cs.drop line.length)

def endLine (cs : List Char) : Part Unit :=
  let rest := match cs.dropWhile isGap with
    | '#' :: more => more.dropWhile (!isEnd ·)
    | more => more
  match rest with
  | [] => .ok ((), [])
  | '\r' :: '\n' :: rest => .ok ((), rest)
  | c :: after => if isEnd c then .ok ((), after) else .error rest

def readLine (cs : List Char) :
    Except (List Char) (Option (String × Option (List Char)) × List Char) := do
  let (name, cs) ← readName (skipExport cs)
  let cs := cs.dropWhile isGap
  let (value, cs) ← match cs with
    | '=' :: rest => (readValue (rest.dropWhile isGap)).map fun (v, cs) => (some v, cs)
    | cs => .ok (none, cs)
  let (_, cs) ← endLine cs
  return (name.map fun n => (String.ofList n, value), cs)

def readLines : Nat → List Char → List (String × Option (List Char))
  | 0, _ => []
  | fuel + 1, cs =>
    match cs.dropWhile isSpace with
    | [] => []
    | cs =>
      match readLine cs with
      | .ok (some assignment, rest) => assignment :: readLines fuel rest
      | .ok (none, rest) => readLines fuel rest
      | .error rest => readLines fuel ((rest.dropWhile (!isEnd ·)).drop 1)

def reference? (cs : List Char) : Option (List Char × List Char × List Char) :=
  match cs with
  | '$' :: '\x7b' :: cs =>
    let name := cs.takeWhile fun c => c ≠ '\x7d' && c ≠ ':'
    match cs.drop name.length with
    | '\x7d' :: rest => some (name, [], rest)
    | ':' :: '-' :: more =>
      let default := more.takeWhile (· ≠ '\x7d')
      match more.drop default.length with
      | _ :: rest => some (name, default, rest)
      | [] => none
    | _ => none
  | _ => none

def resolved (look : String → Option (Option String)) : Nat → List Char → List Char
  | 0, cs => cs
  | fuel + 1, cs =>
    match reference? cs with
    | some (name, default, rest) =>
      let found := match look (String.ofList name) with
        | some value => (value.getD "").toList
        | none => default
      found ++ resolved look fuel rest
    | none =>
      match cs with
      | [] => []
      | c :: rest => c :: resolved look fuel rest

/-- The variables of a text in order, the last assignment to each of them counting. References see
what was assigned before them, and else the variables around. -/
def read (around : List (String × String)) (text : String) : List (String × Option String) :=
  let lines := readLines (text.length + 1) text.toList
  lines.foldl (fun (done : List (String × Option String)) (name, value) =>
    let look (n : String) : Option (Option String) :=
      match done.find? (·.1 == n) with
      | some (_, v) => some v
      | none => (around.find? (·.1 == n)).map (some ·.2)
    let value := value.map fun cs => String.ofList (resolved look (cs.length + 1) cs)
    if done.any (·.1 == name) then done.map fun e => if e.1 == name then (name, value) else e
    else done ++ [(name, value)]) []

end FilterTree.Assignments
