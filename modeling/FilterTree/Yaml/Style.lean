import FilterTree.Yaml.Cursor
import FilterTree.Yaml.Tag

/-! How a scalar is written: plain where its text allows it, else in single quotes, else in double
quotes. -/

namespace FilterTree.Yaml

def isFoldBreak (c : Char) : Bool :=
  c = '\n' || c = '\x85' || c = '\u2028' || c = '\u2029'

def isWritable (c : Char) : Bool :=
  let n := c.toNat
  c = '\n' || (0x20 ≤ n && n ≤ 0x7e) ||
    ((n = 0x85 || (0xa0 ≤ n && n ≤ 0xfffd) || (0x10000 ≤ n && n < 0x10ffff)) && c ≠ '\ufeff')

structure Features where
  isEmpty : Bool
  isMultiline : Bool
  allowsPlain : Bool
  allowsSingle : Bool
  allowsBlock : Bool
  deriving DecidableEq, Repr

namespace Features

def isMark (c : Char) (rest : List Char) : Bool :=
  "#,[]\x7b\x7d&*!|>'\"%@`".toList.contains c || ((c = '?' || c = ':' || c = '-') && startsBlank rest)

def hasMark : List Char → Bool
  | [] => false
  | c :: rest =>
    (match rest with
      | [] => false
      | d :: more =>
        (d = ':' && startsBlank more) || (d = '#' && (isBlank c || isBreak c || c = '\x00'))) ||
      hasMark rest

def hasPair (p q : Char → Bool) : List Char → Bool
  | [] => false
  | c :: rest => (p c && startsWith q rest) || hasPair p q rest

def ofChars (cs : List Char) : Features :=
  match cs with
  | [] => ⟨true, false, true, true, false⟩
  | first :: rest =>
    let last := (cs.getLast?).getD first
    let isSpace (c : Char) : Bool := c = ' '
    let multiline := cs.any isFoldBreak
    let breakSpace := hasPair isFoldBreak isSpace cs
    let hidden := hasPair isSpace isFoldBreak cs || !cs.all isWritable
    let edges := isSpace first || isFoldBreak first || isSpace last || isFoldBreak last
    let documentMark := "---".toList.isPrefixOf cs || "...".toList.isPrefixOf cs
    let marks := documentMark || isMark first rest || hasMark cs
    { isEmpty := false
      isMultiline := multiline
      allowsPlain := !edges && !breakSpace && !hidden && !multiline && !marks
      allowsSingle := !breakSpace && !hidden
      allowsBlock := !isSpace last && !hidden }

end Features

inductive Style where
  | plain | single | double | block
  deriving DecidableEq, Repr

structure Scalar where
  tag : String
  text : String
  asBlock : Bool
  deriving DecidableEq, Repr

namespace Scalar

def features (s : Scalar) : Features :=
  Features.ofChars s.text.toList

/-- The style of a scalar. A key on one line can be neither empty nor of several lines unless
quoted. -/
def style (s : Scalar) (isKey : Bool) : Style :=
  let f := s.features
  let cramped := isKey && (f.isEmpty || f.isMultiline)
  if !s.asBlock && s.tag = tagOfSpelling s.text && !cramped && f.allowsPlain then .plain
  else if s.asBlock && !isKey && f.allowsBlock then .block
  else if !s.asBlock && f.allowsSingle && !(isKey && f.isMultiline) then .single
  else .double

def needsTag (s : Scalar) (style : Style) : Bool :=
  if style = .plain then s.tag ≠ tagOfSpelling s.text else s.tag ≠ Tags.str

end Scalar

end FilterTree.Yaml
