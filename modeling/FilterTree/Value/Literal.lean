import FilterTree.Fault
import FilterTree.Value.Normal

/-! Quoting for queries: identifiers in double quotes, literals in single quotes, the quote doubled
inside. Null, booleans and numbers stay bare, collections become parenthesised lists. -/

namespace FilterTree

def delimited (quote : Char) (s : String) : String :=
  let inner := s.toList.flatMap fun c => if c = quote then [quote, quote] else [c]
  String.ofList (quote :: inner ++ [quote])

namespace Value

def identifier (v : Value) : String :=
  delimited '"' v.plain

mutual

def literal : Value → String
  | .null => "null"
  | .bool b => if b then "true" else "false"
  | .int n => toString n
  | .float x => x.text
  | .nan _ => "nan"
  | .list xs | .tuple xs => "(" ++ ",".intercalate (literalAll xs) ++ ")"
  | .set xs | .frozenset xs => "(" ++ ",".intercalate (sortKeyed (literalKeyed xs)) ++ ")"
  | v => delimited '\'' v.plain

def literalAll : List Value → List String
  | [] => []
  | x :: xs => literal x :: literalAll xs

def literalKeyed : List Value → List (String × String)
  | [] => []
  | x :: xs => (display x, literal x) :: literalKeyed xs

end

def literalText (v : Value) : Except Fault String :=
  v.written literal

end Value

end FilterTree
