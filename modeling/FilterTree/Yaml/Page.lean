import FilterTree.Yaml.Style
import FilterTree.Text.Quoted

/-! The page a document is written on, up to the column reached, and the ways a text gets onto it.
Lines are folded at a space once they are longer than eighty columns. -/

namespace FilterTree.Yaml

/-- `afterBlank` tells whether a blank or a line break came last, `atIndent` whether the line holds
nothing yet but marks of collections. -/
structure Page where
  text : String
  column : Nat
  afterBlank : Bool
  atIndent : Bool

namespace Page

def empty : Page := ⟨"", 0, true, true⟩

def width : Nat := 80

def write (p : Page) (s : String) : Page :=
  { p with text := p.text ++ s, column := p.column + s.length }

def breakLine (p : Page) (c : Char) : Page :=
  ⟨p.text.push c, 0, true, true⟩

def indent (p : Page) (column : Nat) : Page :=
  let p :=
    if !p.atIndent || column < p.column || (p.column = column && !p.afterBlank) then
        p.breakLine '\n'
    else p
  if p.column < column then
    { p.write (String.ofList (List.replicate (column - p.column) ' ')) with afterBlank := true }
  else p

def mark (p : Page) (s : String) (afterBlank atIndent : Bool) : Page :=
  let p := { p.write s with afterBlank := afterBlank }
  { p with atIndent := p.atIndent && atIndent }

def spaced (p : Page) : Page :=
  if p.afterBlank then p else p.write " "

def property (p : Page) (s : String) : Page :=
  p.spaced.mark s false false

def isTooLong (p : Page) : Bool :=
  width < p.column

def foldTo (p : Page) (column : Nat) : Page :=
  { p.indent column with afterBlank := false, atIndent := false }

def plainRuns (column : Nat) (split : Bool) : Nat → List Char → Page → Page
  | 0, _, p => p
  | fuel + 1, cs, p =>
    match cs with
    | [] => p
    | c :: _ =>
      let run := if c = ' ' then cs.takeWhile (· = ' ') else cs.takeWhile (· ≠ ' ')
      let rest := cs.drop run.length
      let p :=
        if c = ' ' ∧ run.length = 1 ∧ p.isTooLong ∧ split then p.foldTo column
        else p.write (String.ofList run)
      plainRuns column split fuel rest p

def plain (column : Nat) (split : Bool) (text : String) (p : Page) : Page :=
  if text.isEmpty then p
  else
    let p := { p.spaced with afterBlank := false, atIndent := false }
    plainRuns column split (text.length + 1) text.toList p

/-- The breaks of a run: the first line feed is written twice, since one alone would fold to a
space. -/
def writeBreaks (column : Nat) (run : List Char) (p : Page) : Page :=
  let p := if run.head? = some '\n' then p.breakLine '\n' else p
  (run.foldl breakLine p).indent column

def doubledQuote (c : Char) : List Char :=
  if c = '\'' then ['\'', '\''] else [c]

def singleRuns (column : Nat) (split : Bool) : Nat → Bool → List Char → Page → Page
  | 0, _, _, p => p
  | fuel + 1, first, cs, p =>
    match cs with
    | [] => p
    | c :: _ =>
      let kind (d : Char) : Nat := if d = ' ' then 0 else if isFoldBreak d then 1 else 2
      let run := cs.takeWhile (kind · = kind c)
      let rest := cs.drop run.length
      let p :=
        if c = ' ' then
          if run.length = 1 ∧ p.isTooLong ∧ split ∧ !first ∧ !rest.isEmpty then p.indent column
          else p.write (String.ofList run)
        else if isFoldBreak c then p.writeBreaks column run
        else p.write (String.ofList (run.flatMap doubledQuote))
      singleRuns column split fuel false rest p

def single (column : Nat) (split : Bool) (text : String) (p : Page) : Page :=
  let p := p.property "'"
  (singleRuns column split (text.length + 1) true text.toList p).mark "'" false false

def shortEscape? : Char → Option Char
  | '\x00' => some '0'
  | '\x07' => some 'a'
  | '\x08' => some 'b'
  | '\t' => some 't'
  | '\n' => some 'n'
  | '\x0b' => some 'v'
  | '\x0c' => some 'f'
  | '\r' => some 'r'
  | '\x1b' => some 'e'
  | '"' => some '"'
  | '\\' => some '\\'
  | '\x85' => some 'N'
  | '\xa0' => some '_'
  | '\u2028' => some 'L'
  | '\u2029' => some 'P'
  | _ => none

def isBare (c : Char) : Bool :=
  let n := c.toNat
  c ≠ '"' && c ≠ '\\' && c ≠ '\u2028' && c ≠ '\u2029' && c ≠ '\ufeff' &&
    ((0x20 ≤ n && n ≤ 0x7e) || (0xa0 ≤ n && n ≤ 0xfffd))

def escaped (c : Char) : String :=
  match shortEscape? c with
  | some e => String.ofList ['\\', e]
  | none =>
    let n := c.toNat
    let (letter, digits) := if n ≤ 0xff then ("x", 2) else if n ≤ 0xffff then ("u", 4) else ("U", 8)
    "\\" ++ letter ++ (hexText digits n).toUpper

/-- Ends the line within double quotes. A space at the beginning of the next one is escaped. -/
def continueLine (column : Nat) (next : Option Char) (p : Page) : Page :=
  let p := (p.write "\\").foldTo column
  if next = some ' ' then p.write "\\" else p

def doubleRuns (column : Nat) (split : Bool) : Bool → List Char → List Char → Page → Page
  | _, held, [], p => p.write (String.ofList held.reverse)
  | first, held, c :: rest, p =>
    let mayFold := split && !first && !rest.isEmpty
    if !isBare c then
      let p := (p.write (String.ofList held.reverse)).write (escaped c)
      let isLong := mayFold && decide (width + 1 < p.column)
      let p := if isLong then p.continueLine column rest.head? else p
      doubleRuns column split false [] rest p
    else if mayFold && (c = ' ' || held.isEmpty) && decide (width < p.column + held.length) then
      let p := (p.write (String.ofList held.reverse)).continueLine column (some c)
      doubleRuns column split false [c] rest p
    else doubleRuns column split false (c :: held) rest p

def double (column : Nat) (split : Bool) (text : String) (p : Page) : Page :=
  let p := p.property "\""
  (doubleRuns column split true [] text.toList p).mark "\"" false false

def blockHints (cs : List Char) : String :=
  match cs.head?, cs.reverse with
  | some first, last :: before =>
    let lead := if first = ' ' || isFoldBreak first then "2" else ""
    let tail :=
      if !isFoldBreak last then "-"
      else if before.isEmpty || startsWith isFoldBreak before then "+"
      else ""
    lead ++ tail
  | _, _ => ""

def blockLines (column : Nat) : Bool → List Char → Page → Page
  | _, [], p => p
  | atBreak, c :: rest, p =>
    if isFoldBreak c then blockLines column true rest (p.breakLine c)
    else
      let p := if atBreak then p.indent column else p
      blockLines column false rest { p with text := p.text.push c }

def block (column : Nat) (text : String) (p : Page) : Page :=
  let p := p.property ("|" ++ blockHints text.toList)
  blockLines column true text.toList (p.breakLine '\n')

def scalar (column : Nat) (isKey : Bool) (s : Scalar) (p : Page) : Page :=
  let style := s.style isKey
  let p := if s.needsTag style then p.property (Tags.shorthand s.tag) else p
  match style with
  | .plain => plain column (!isKey) s.text p
  | .single => single column (!isKey) s.text p
  | .double => double column (!isKey) s.text p
  | .block => block column s.text p

end Page

end FilterTree.Yaml
