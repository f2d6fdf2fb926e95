import FilterTree.Hook.Loading
import FilterTree.Path

/-! What the program sees of the machine it runs on: a working directory, variables, files, users and
modules. -/

namespace FilterTree

inductive Entity where
  | nothing
  /-- A path with a name that no file can have. -/
  | unnameable
  | directory
  | file (text : String)
  deriving DecidableEq, Repr

/-- Files by their place, the names from the root on. An entry without a text is a directory, and so
is every place on the way to an entry. -/
structure Files where
  entries : List (List String × Option String)

namespace Files

def entity (f : Files) (place : List String) : Entity :=
  match f.entries.find? (·.1 == place) with
  | some (_, some text) => .file text
  | some (_, none) => .directory
  | none =>
    if place.isEmpty || f.entries.any fun e => place.isPrefixOf e.1 then .directory else .nothing

def nameLimit : Nat := 255

def pathLimit : Nat := 4095

def walk (f : Files) (place : List String) : List String → Entity
  | [] => f.entity place
  | name :: rest =>
    match f.entity place with
    | .directory =>
      if nameLimit < name.utf8ByteSize then .unnameable
      else f.walk (if name == ".." then place.dropLast else place ++ [name]) rest
    | _ => .nothing

def look (f : Files) (directory p : Path) : Entity :=
  if pathLimit < p.text.utf8ByteSize then .unnameable
  else f.walk (if p.root.isEmpty then directory.names else []) p.names

def write (f : Files) (place : List String) (text : String) : Files :=
  ⟨(place, some text) :: f.entries.filter (·.1 != place)⟩

end Files

structure Host where
  directory : Path
  /-- In the order in which they were set. -/
  environment : List (String × String)
  look : Path → Entity
  /-- The directories of the users by their names. The user of the program has the empty name. -/
  homes : String → Option String
  modules : Modules
  /-- Whether the output takes a text. One that encodes characters takes no half of one. -/
  writes : String → Bool

/-- Every line of a text ends in a line feed, whichever of the three ways it ended before. -/
def unifyLines : List Char → List Char
  | '\r' :: '\n' :: rest => '\n' :: unifyLines rest
  | '\r' :: rest => '\n' :: unifyLines rest
  | c :: rest => c :: unifyLines rest
  | [] => []

namespace Host

def lookup? (h : Host) (name : String) : Option String :=
  (h.environment.find? (·.1 == name)).map (·.2)

def exists? (h : Host) (p : Path) : Except Fault Bool :=
  match h.look p with
  | .nothing => .ok false
  | .unnameable => .error (.other .system "File name too long")
  | _ => .ok true

def read? (h : Host) (p : Path) : Except Fault (Option String) :=
  match h.look p with
  | .nothing => .ok none
  | .unnameable => .error (.other .system "File name too long")
  | .directory => .error (.other .directory "")
  | .file text => .ok (some (String.ofList (unifyLines text.toList)))

def readFile? (h : Host) (p : Path) : Except Fault (Option String) :=
  match h.look p with
  | .directory => .ok none
  | _ => h.read? p

/-- The directory of a user, which may not be given as someone's home once more. That of the user of
the program is in a variable, if it is set. -/
def homeOf (h : Host) (user : String) : Except Fault Path :=
  let fault : Except Fault Path := .error (.other .runtime "Could not determine home directory.")
  match (if user.isEmpty then h.lookup? "HOME" else none).or (h.homes user) with
  | none => fault
  | some s =>
    if s.startsWith "~" then fault
    else .ok (Path.ofText (if s.toList.all (· == '/') then "/" else s))

def home (h : Host) : Except Fault Path :=
  h.homeOf ""

def print (h : Host) (text : String) : Except Fault String :=
  if h.writes text then .ok text else .error (.other .encoding "surrogates not allowed")

/-- A path in which a tilde in front, with the name of a user or without, stands for the directory of
that user. -/
def expanded (h : Host) (p : Path) : Except Fault Path :=
  match p.root.isEmpty, p.names with
  | true, name :: rest =>
    match name.toList with
    | '~' :: user =>
      (h.homeOf (String.ofList user)).map fun home => { home with names := home.names ++ rest }
    | _ => .ok p
  | _, _ => .ok p

end Host

end FilterTree
