import FilterTree.Command
import FilterTree.Outline
import FilterTree.Settings.Document
import FilterTree.Settings.Hooks
import FilterTree.Tree.Restore

/-! Running a command: it reads an encoded condition and writes its text, its outline or another
encoding. -/

namespace FilterTree.Command

def pageWidth (h : Host) : Nat :=
  match (h.lookup? "COLUMNS").bind fun s => s.toList.mapM decimalDigit? with
  | none | some [] => 80
  | some digits => digits.foldl (fun n d => 10 * n + d) 0

def settings (c : Command) (h : Host) : Outcome Settings :=
  match c.directory with
  | some d => Settings.load h (d.child Settings.fileName) []
  | none => Settings.discover h

def source (c : Command) (h : Host) (input : String) : Except Fault String :=
  match c.file with
  | none => .ok input
  | some p => do
    match ← h.read? p with
    | some text => return text
    | none => .error (.noFile p.text)

def restored (text : String) (hooks : Option HookSet) : Outcome Tree := do
  let (s, h) := match hooks with
    | some h => Store.empty.adopt h
    | none => (Store.empty, .none)
  let (s, id) ← s.restore (.text text) h .null
  return s.view id

def dropLinesEnd (s : String) : String :=
  String.ofList (s.toList.reverse.dropWhile (· == '\n')).reverse

/-- Hooks are loaded before the text is read, unless they do not count. -/
def render (h : Host) (input : String) (c : Command) (s : Settings) (raw : Bool) :
    Outcome String := do
  let hooks ← if raw then pure none else some <$> s.hookSet h.modules .initial
  let t ← restored (← Outcome.ofExcept (c.source h input)) hooks
  let v ← t.render .none
  return v.plain ++ "\n"

/-- Hooks are loaded after the text is read. -/
def outline (h : Host) (input : String) (c : Command) (s : Settings) : Outcome String := do
  let text ← Outcome.ofExcept (c.source h input)
  let hooks ← s.hookSet h.modules .initial
  let t ← restored text (some hooks)
  let o ← if t.slots.isEmpty then pure (Outline.entry "[dim]empty condition[/dim]" [])
    else t.outline .none "condition"
  return o.draw (pageWidth h)

def convert (h : Host) (input : String) (c : Command) (f : Format) : Outcome String := do
  let t ← restored (← Outcome.ofExcept (c.source h input)) none
  let text ← Outcome.ofExcept (t.encode f)
  return dropLinesEnd text ++ "\n"

def output (h : Host) (input : String) (c : Command) (s : Settings) : Outcome String :=
  match c.action with
  | .render raw => render h input c s raw
  | .show => outline h input c s
  | .convert target => convert h input c (target.getD s.encoding)

def run (h : Host) (input : String) (c : Command) : Outcome String := do
  let s ← c.settings h
  let text ← output h input c s
  Outcome.ofExcept (h.print text)

def notice? (f : Fault) : Option String :=
  if f.isOwn then some s!"Error: {f.message}\n" else none

def printed (events : List Event) : String :=
  String.join (events.map fun
    | .printed line => line ++ "\n"
    | _ => "")

def paths (h : Host) (c : Command) : List Path :=
  let named := (h.lookup? "CONDBUILDER_CONFIG_DIR").getD ""
  let homes := h.home.toOption.toList.map (·.child ".condbuilder")
  c.file.toList ++
    (h.directory :: Path.ofText named :: c.directory.getD h.directory :: homes).map
      (·.child Settings.fileName)

end FilterTree.Command
