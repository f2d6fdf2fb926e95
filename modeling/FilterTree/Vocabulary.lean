/-! The two vocabularies of a filter: comparison operators, which belong to a single comparison,
and joins, which stand between neighbouring slots. They never overlap. -/

namespace FilterTree

inductive Operator where
  | eq | neq | gt | gte | lt | lte | like | nlike | match | nmatch | is | nis | in | nin | ltree
  deriving DecidableEq, Repr

namespace Operator

def all : List Operator :=
  [.eq, .neq, .gt, .gte, .lt, .lte, .like, .nlike, .match, .nmatch, .is, .nis, .in, .nin, .ltree]

def name : Operator → String
  | .eq => "eq"
  | .neq => "neq"
  | .gt => "gt"
  | .gte => "gte"
  | .lt => "lt"
  | .lte => "lte"
  | .like => "like"
  | .nlike => "nlike"
  | .match => "match"
  | .nmatch => "nmatch"
  | .is => "is"
  | .nis => "nis"
  | .in => "in"
  | .nin => "nin"
  | .ltree => "ltree"

def label (o : Operator) : String :=
  o.name.map Char.toUpper

def symbol : Operator → String
  | .eq => "="
  | .neq => "!="
  | .gt => ">"
  | .gte => ">="
  | .lt => "<"
  | .lte => "<="
  | .like => " ilike "
  | .nlike => " not ilike "
  | .match => "~"
  | .nmatch => "!~"
  | .is => " is "
  | .nis => " is not "
  | .in => " in "
  | .nin => " not in "
  | .ltree => "~"

def ofName? (s : String) : Option Operator :=
  all.find? (·.name == s)

end Operator

inductive Join where
  | and | or
  deriving DecidableEq, Repr

namespace Join

def name : Join → String
  | .and => "and"
  | .or => "or"

def label : Join → String
  | .and => "AND"
  | .or => "OR"

def ofName? (s : String) : Option Join :=
  if s == "and" then some .and else if s == "or" then some .or else none

theorem ofName?_name (j : Join) : ofName? j.name = some j := by
  cases j <;> rfl

end Join

end FilterTree
