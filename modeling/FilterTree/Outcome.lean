import FilterTree.Fault

/-! What happens while something is done: log lines and observations in order, and a result or the
fault that ended it. Events that came before a fault are kept. -/

namespace FilterTree

inductive Level where
  | debug | info | warning
  deriving DecidableEq, Repr

inductive Source where
  | condition | serializer | overrides | keyWhitelist | config
  deriving DecidableEq, Repr

inductive Event where
  | log (level : Level) (source : Source) (message : String)
  /-- A hook that only watches has seen the parts of an expression. -/
  | seen (key operator value : Value)
  /-- A hook has printed a line. -/
  | printed (line : String)
  /-- A hook has put something in the place of the settings that everyone shares. -/
  | displaced
  /-- A hook has asked for the settings that everyone shares. -/
  | consulted
  /-- A hook has made the hook set anew of which it is a part. -/
  | renewed
  deriving Repr

structure Outcome (α : Type) where
  events : List Event
  result : Except Fault α

namespace Outcome

def pure {α : Type} (a : α) : Outcome α :=
  ⟨[], .ok a⟩

def bind {α β : Type} (x : Outcome α) (f : α → Outcome β) : Outcome β :=
  match x.result with
  | .error e => ⟨x.events, .error e⟩
  | .ok a => ⟨x.events ++ (f a).events, (f a).result⟩

instance : Monad Outcome where
  pure := Outcome.pure
  bind := Outcome.bind

def fail {α : Type} (f : Fault) : Outcome α :=
  ⟨[], .error f⟩

def emit (e : Event) : Outcome Unit :=
  ⟨[e], .ok ()⟩

def log (level : Level) (source : Source) (message : String) : Outcome Unit :=
  emit (.log level source message)

def ofExcept {α : Type} : Except Fault α → Outcome α
  | .ok a => pure a
  | .error f => fail f

end Outcome

end FilterTree
