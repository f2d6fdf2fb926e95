/-! Text with style tags in square brackets. A tag begins with a small letter or one of `# / @`; a
backslash before it makes it plain text. -/

namespace FilterTree.Markup

def beginsTag (c : Char) : Bool :=
  ('a' ≤ c && c ≤ 'z') || c = '#' || c = '/' || c = '@'

def tagLength? (cs : List Char) : Option Nat :=
  match cs with
  | '[' :: c :: rest =>
    if beginsTag c then
      let inner := rest.takeWhile fun d => d ≠ '[' && d ≠ ']'
      match rest.drop inner.length with
      | ']' :: _ => some (inner.length + 3)
      | _ => none
    else none
  | _ => none

inductive Piece where
  | plain (cs : List Char)
  | tag (backslashes : Nat) (cs : List Char)
  deriving DecidableEq, Repr

def Piece.push (c : Char) : List Piece → List Piece
  | .plain cs :: rest => .plain (c :: cs) :: rest
  | rest => .plain [c] :: rest

def piecesWithin : Nat → List Char → List Piece
  | 0, _ => []
  | fuel + 1, cs =>
    let run := cs.takeWhile (· = '\\')
    let rest := cs.drop run.length
    match tagLength? rest with
    | some n => .tag run.length (rest.take n) :: piecesWithin fuel (rest.drop n)
    | none =>
      match cs with
      | [] => []
      | c :: rest => Piece.push c (piecesWithin fuel rest)

def pieces (cs : List Char) : List Piece :=
  piecesWithin (cs.length + 1) cs

/-- A piece as plain text: a tag needs one more backslash than it has, and these are doubled. -/
def Piece.escaped : Piece → List Char
  | .plain cs => cs
  | .tag n cs => List.replicate (2 * n + 1) '\\' ++ cs

def guardEnd (cs : List Char) : List Char :=
  match cs.reverse with
  | '\\' :: '\\' :: _ => cs
  | '\\' :: _ => cs ++ ['\\']
  | _ => cs

def escape (s : String) : String :=
  String.ofList (guardEnd ((pieces s.toList).flatMap Piece.escaped))

def withoutEscapes : List Char → List Char
  | '\\' :: '[' :: rest => '[' :: withoutEscapes rest
  | c :: rest => c :: withoutEscapes rest
  | [] => []

def Piece.shown : Piece → List Char
  | .plain cs => withoutEscapes cs
  | .tag n cs => List.replicate (n / 2) '\\' ++ if n % 2 = 1 then cs else []

def shown (s : String) : String :=
  String.ofList ((pieces s.toList).flatMap Piece.shown)

end FilterTree.Markup
