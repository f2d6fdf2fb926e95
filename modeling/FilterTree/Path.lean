/-! File paths: a root, and the names on the way from it. Empty names and single dots lead nowhere
and are dropped; what double dots lead to only the files can tell. -/

namespace FilterTree

structure Path where
  /-- Empty for a relative path. -/
  root : String
  names : List String
  deriving DecidableEq, Repr, Inhabited

namespace Path

/-- The root a path starts with: any number of slashes is one, but exactly two stay two. -/
def rootOf : List Char → String
  | '/' :: '/' :: '/' :: _ => "/"
  | '/' :: '/' :: _ => "//"
  | '/' :: _ => "/"
  | _ => ""

def ofText (s : String) : Path :=
  let names := (s.toList.splitOn '/').map String.ofList
  ⟨rootOf s.toList, names.filter fun n => n != "" && n != "."⟩

def text (p : Path) : String :=
  if p.root.isEmpty && p.names.isEmpty then "." else p.root ++ "/".intercalate p.names

def child (p : Path) (name : String) : Path :=
  { p with names := p.names ++ [name] }

end Path

end FilterTree
