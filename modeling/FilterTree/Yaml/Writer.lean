import FilterTree.Yaml.Page
import FilterTree.Yaml.Sketch

/-! Writing a document: block collections, keys in their order, one line for a key where it fits.
What stands in several places is written once and referred to from the others. -/

namespace FilterTree.Yaml

/-- A page with the things that stand in several places and those of them that have been written. -/
structure Sheet where
  page : Page
  repeated : List Identity
  written : List Identity

namespace Sheet

def onPage (s : Sheet) (f : Page → Page) : Sheet :=
  { s with page := f s.page }

def name? (s : Sheet) (i : Option Identity) : Option String :=
  (i.bind fun i => s.repeated.findIdx? (· == i)).map fun n => "id" ++ padded 3 (n + 1)

def isKnown (s : Sheet) (i : Option Identity) : Bool :=
  i.any s.written.contains

def introduce (s : Sheet) (i : Option Identity) : Sheet :=
  match i, s.name? i with
  | some i, some name =>
    { s with page := s.page.property ("&" ++ name), written := i :: s.written }
  | _, _ => s

/-- A key that goes on one line with its colon: short, not empty, and of one line. Of a thing that has
been written before only the name counts. -/
def isSimpleKey (s : Sheet) (k : Sketch) : Bool :=
  let named := ((s.name? k.identity).map String.length).getD 0
  if s.isKnown k.identity then decide (named < 128)
  else
    match k with
    | .sequence items _ => items.isEmpty
    | .mapping entries _ => entries.isEmpty
    | .scalar x _ =>
      let f := x.features
      decide (named + (Tags.shorthand x.tag).length + x.text.length < 128) && !f.isEmpty &&
        !f.isMultiline

def nested : Option Nat → Nat
  | none => 0
  | some n => n + 2

def hollow (left right : String) (p : Page) : Page :=
  (p.spaced.mark left true false).mark right false false

mutual

/-- Writes a value inside a collection at column `outer`, or its name if that is enough. A sequence
under a key stays at the column of its mapping. -/
def write (outer : Option Nat) (inMapping isKey : Bool) (x : Sketch) (s : Sheet) : Sheet :=
  if s.isKnown x.identity then
    s.onPage (·.property ("*" ++ (s.name? x.identity).getD ""))
  else
    let s := s.introduce x.identity
    match x with
    | .scalar x _ => s.onPage (Page.scalar ((outer.getD 0) + 2) isKey x)
    | .sequence items _ =>
      if items.isEmpty then s.onPage (hollow "[" "]")
      else
        let column := if inMapping && !s.page.atIndent then outer.getD 0 else nested outer
        writeItems column items s
    | .mapping entries _ =>
      if entries.isEmpty then s.onPage (hollow "\x7b" "\x7d")
      else writeEntries (nested outer) entries s

def writeItems (column : Nat) : List Sketch → Sheet → Sheet
  | [], s => s
  | x :: xs, s =>
    let s := s.onPage fun p => (p.indent column).spaced.mark "-" false true
    writeItems column xs (write (some column) false false x s)

def writeEntries (column : Nat) : List (Sketch × Sketch) → Sheet → Sheet
  | [], s => s
  | (k, v) :: es, s =>
    let s := s.onPage (·.indent column)
    let s :=
      if s.isSimpleKey k then
        (write (some column) true true k s).onPage (·.mark ":" false false)
      else
        let s := write (some column) true false k (s.onPage (·.spaced.mark "?" false true))
        s.onPage fun p => (p.indent column).spaced.mark ":" false true
    writeEntries column es (write (some column) true false v s)

end

end Sheet

def write (x : Sketch) : String :=
  let sheet : Sheet := ⟨.empty, (x.survey ⟨[], []⟩).again, []⟩
  ((sheet.write none false false x).page.indent 0).text

end FilterTree.Yaml
