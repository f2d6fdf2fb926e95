import FilterTree.Markup
import FilterTree.Text.Space
import FilterTree.Text.Width
import FilterTree.Tree.Basic

/-! The outline of a condition: one labelled entry for each slot, drawn with guide lines on a page
of fixed width. Labels are marked up, and wrap at words. -/

namespace FilterTree

inductive Outline where
  | entry (label : String) (children : List Outline)
  deriving Inhabited

namespace Tree

def leafLabel (v : Value) : Except Fault String :=
  match v.text? with
  | some s => .ok (Markup.escape s)
  | none => .error (.other .type "expected string or bytes-like object")

mutual

def outlineSlots (overrides : Hooks) : List (Join × Tree) → Outcome (List Outline)
  | [] => pure []
  | (j, t) :: rest => do
    let join := if rest.isEmpty then "" else s!" [dim]{j.name}[/dim]"
    let entry ← outlineEntry overrides join t
    let others ← outlineSlots overrides rest
    return entry :: others

def outlineEntry (overrides : Hooks) (join : String) : Tree → Outcome Outline
  | .branch _ _ slots => do
    let children ← outlineSlots overrides slots
    return .entry (s!"[bold]( )[/bold]{join}") children
  | .leaf id hooks c => do
    let v ← (Tree.leaf id hooks c).render overrides
    let label ← Outcome.ofExcept (leafLabel v)
    return .entry (label ++ join) []

end

def outline (t : Tree) (overrides : Hooks) (label : String) : Outcome Outline := do
  let children ← outlineSlots overrides t.slots
  return .entry s!"[bold]{Markup.escape label}[/bold]" children

end Tree

namespace Wrap

def isControl (c : Char) : Bool :=
  let n := c.toNat
  n = 7 || n = 8 || n = 11 || n = 12 || n = 13

/-- Fills up to the next multiple of eight cells at each tab. `part` is what stands between the last
tab, which ended at `column`, and here, backwards. -/
def expandTabs (column : Nat) (part : List Char) : List Char → List Char
  | [] => part.reverse
  | '\t' :: rest =>
    let filled := (' ' :: part).reverse
    let column := column + textWidth filled
    let n := (8 - column % 8) % 8
    filled ++ List.replicate n ' ' ++ expandTabs (column + n) [] rest
  | c :: rest => expandTabs column (c :: part) rest

def words : Nat → List Char → List (List Char)
  | 0, _ => []
  | fuel + 1, cs =>
    let lead := cs.takeWhile isSpace
    let body := (cs.drop lead.length).takeWhile (!isSpace ·)
    let tail := (cs.drop (lead.length + body.length)).takeWhile isSpace
    let word := lead ++ body ++ tail
    if body.isEmpty then [] else word :: words fuel (cs.drop word.length)

def chop (width : Nat) : List Char → Nat → List Cluster → List (List Char)
  | piece, _, [] => [piece]
  | piece, used, g :: rest =>
    if width < used + g.cells then piece :: chop width g.chars g.cells rest
    else chop width (piece ++ g.chars) (used + g.cells) rest

/-- The places at which a line is broken. `start` is the place of the next word, `used` the cells
taken on the present line. -/
def breaks (width : Nat) : Nat → Nat → List (List Char) → List Nat
  | _, _, [] => []
  | start, used, word :: rest =>
    let after := start + word.length
    let size := textWidth (dropSpaceEnd word)
    if size ≤ width - used ∧ used ≤ width then breaks width after (used + textWidth word) rest
    else if width < size then
      let pieces := chop width [] 0 (Cluster.ofChars word)
      let starts := (pieces.dropLast.foldl
        (fun (acc : List Nat × Nat) piece => (acc.1 ++ [acc.2], acc.2 + piece.length)) ([], start))
      let places := (starts.1 ++ [starts.2]).filter (· ≠ 0)
      places ++ breaks width after (textWidth (pieces.getLastD [])) rest
    else if used ≠ 0 ∧ start ≠ 0 then start :: breaks width after (textWidth word) rest
    else breaks width after used rest

def cut (from_ : Nat) (cs : List Char) : List Nat → List (List Char)
  | [] => [cs]
  | n :: rest => cs.take (n - from_) :: cut n (cs.drop (n - from_)) rest

def dropExcess (width : Nat) (cs : List Char) : List Char :=
  let blank := cs.length - (dropSpaceEnd cs).length
  cs.take (cs.length - min blank (cs.length - width))

def crop : Nat → List Cluster → List Char
  | _, [] => []
  | room, g :: rest =>
    if room = 0 then []
    else if g.cells ≤ room then g.chars ++ crop (room - g.cells) rest
    else [' ']

def line (width : Nat) (cs : List Char) : List (List Char) :=
  let cs := expandTabs 0 [] cs
  let parts := cut 0 cs (breaks width 0 0 (words (cs.length + 1) cs))
  parts.map fun part =>
    let part := dropExcess width part
    if width < textWidth part then crop width (Cluster.ofChars part) else part

def lines (width : Nat) (s : String) : List String :=
  if width = 0 then []
  else
    let clean := String.ofList (s.toList.filter (!isControl ·))
    ((clean.splitOn "\n").flatMap fun l => line width l.toList).map String.ofList

end Wrap

namespace Outline

def guided (first other : String) : List String → List String
  | [] => []
  | l :: ls => (first ++ l) :: ls.map (other ++ ·)

mutual

def drawEntry (width depth : Nat) (before first other : String) : Outline → List String
  | .entry label children =>
    let own := Wrap.lines (width - 4 * depth) (Markup.shown label)
    guided (before ++ first) (before ++ other) own ++
      drawChildren width (depth + 1) (before ++ other) children

def drawChildren (width depth : Nat) (before : String) : List Outline → List String
  | [] => []
  | x :: rest =>
    let (first, other) := if rest.isEmpty then ("└── ", "    ") else ("├── ", "│   ")
    drawEntry width depth before first other x ++ drawChildren width depth before rest

end

def draw (width : Nat) (o : Outline) : String :=
  String.join ((drawEntry width 0 "" "" "" o).map (· ++ "\n"))

end Outline

end FilterTree
