import FilterTree.Fault
import FilterTree.Text.Half

/-! A place in a document: what is left of it, with the line and the column reached. The classes of
characters that matter everywhere in a document are here too. -/

namespace FilterTree.Yaml

/-- Why a document has no value: it breaks the rules of the format, or something in it cannot be
what its tag says. -/
inductive Failure where
  | invalid
  | other (kind : Kind)
  deriving DecidableEq, Repr

def isAllowed (c : Char) : Bool :=
  let n := c.toNat
  n = 9 || n = 10 || n = 13 || (0x20 ≤ n && n ≤ 0x7e) || n = 0x85 || (0xa0 ≤ n && n ≤ 0xfffd) ||
    0x10000 ≤ n

def isBreak (c : Char) : Bool :=
  c = '\n' || c = '\r' || c = '\x85' || c = '\u2028' || c = '\u2029'

def isBlank (c : Char) : Bool :=
  c = ' ' || c = '\t'

def startsBlank : List Char → Bool
  | [] => true
  | c :: _ => isBlank c || isBreak c

def startsSpace : List Char → Bool
  | [] => true
  | c :: _ => c = ' ' || isBreak c

def startsBreak : List Char → Bool
  | [] => true
  | c :: _ => isBreak c

def startsWith (p : Char → Bool) : List Char → Bool
  | [] => false
  | c :: _ => p c

def atMarker (cs : List Char) : Bool :=
  match cs with
  | a :: b :: c :: rest => (a = '-' || a = '.') && b = a && c = a && startsBlank rest
  | _ => false

structure Cursor where
  rest : List Char
  index : Nat
  line : Nat
  column : Nat

namespace Cursor

def start (cs : List Char) : Cursor :=
  ⟨cs, 0, 0, 0⟩

/-- One character on. A byte order mark takes no column, and a carriage return ends a line unless a
line feed does so next. -/
def next (c : Cursor) : Cursor :=
  match c.rest with
  | [] => c
  | ch :: rest =>
    if isBreak ch && !(ch = '\r' && rest.head? = some '\n') then ⟨rest, c.index + 1, c.line + 1, 0⟩
    else if ch = '\ufeff' then { c with rest := rest, index := c.index + 1 }
    else { c with rest := rest, index := c.index + 1, column := c.column + 1 }

def advance : Nat → Cursor → Cursor
  | 0, c => c
  | n + 1, c => advance n c.next

def span (p : Char → Bool) (c : Cursor) : List Char × Cursor :=
  let run := c.rest.takeWhile p
  (run, c.advance run.length)

def skip (p : Char → Bool) (c : Cursor) : Cursor :=
  (c.span p).2

def skipSpaces (c : Cursor) : Cursor :=
  c.skip (· = ' ')

def skipComment (c : Cursor) : Cursor :=
  if c.rest.head? = some '#' then c.skip (!isBreak ·) else c

def takeBreak? (c : Cursor) : Option (Char × Cursor) :=
  match c.rest with
  | '\r' :: '\n' :: _ => some ('\n', c.advance 2)
  | ch :: _ =>
    if ch = '\u2028' ∨ ch = '\u2029' then some (ch, c.next)
    else if isBreak ch then some ('\n', c.next)
    else none
  | [] => none

def skipBreak (c : Cursor) : Cursor :=
  match c.takeBreak? with
  | some (_, c) => c
  | none => c

def endLine (c : Cursor) : Except Failure Cursor :=
  let c := c.skipSpaces.skipComment
  if startsBreak c.rest then .ok c.skipBreak else .error .invalid

end Cursor

def charOfCode (n : Nat) : Except Failure Char :=
  if 0x7fffffff < n then .error (.other .overflow)
  else if 0x10ffff < n then .error (.other .value)
  else if 0xd800 ≤ n ∧ n < 0xe000 then .ok loneHalf
  else .ok (Char.ofNat n)

def hexDigit? (c : Char) : Option Nat :=
  if c.isDigit then some (c.toNat - '0'.toNat)
  else if 'a' ≤ c ∧ c ≤ 'f' then some (c.toNat - 'a'.toNat + 10)
  else if 'A' ≤ c ∧ c ≤ 'F' then some (c.toNat - 'A'.toNat + 10)
  else none

def hexNumber? (n : Nat) (cs : List Char) : Option Nat :=
  let ds := cs.take n
  if ds.length = n then (ds.mapM hexDigit?).map (·.foldl (fun k d => 16 * k + d) 0) else none

end FilterTree.Yaml
