import FilterTree.Command.Run

/-! The program: it observes the machine, runs the command of its arguments and prints what comes
back. -/

namespace FilterTree.Program

def usageText : String :=
  "usage: condbuilder [-h] [--config-dir PATH] [--debug | --no-debug] VERB ...\n\n" ++
  "  render [FILE] [--raw | --no-raw]   print a condition as text\n" ++
  "  show [FILE]                        print the structure of a condition\n" ++
  "  convert [FILE] [--to json|yaml]    print a condition in another encoding\n"

def variableNames : List String :=
  ["HOME", "COLUMNS", "CONDBUILDER_CONFIG_DIR", "CONDBUILDER_DEBUG", "CONDBUILDER_ENCODING",
    "CONDBUILDER_HOOKS", "CONDBUILDER_CONFIG_PATH"]

def observeEntity (p : Path) : IO Entity :=
  try
    return .file (← IO.FS.readFile p.text)
  catch
    | .noFileOrDirectory .. => return .nothing
    | _ => return .directory

def observeLines (file : String) : IO (List String) :=
  try
    return (← IO.FS.readFile file).splitOn "\n"
  catch _ => return []

def observeHome : IO (Option String) := do
  let status ← observeLines "/proc/self/status"
  let number := (status.find? (·.startsWith "Uid:")).bind fun line => (line.splitOn "\t")[1]?
  let accounts ← observeLines "/etc/passwd"
  return accounts.findSome? fun line =>
    match line.splitOn ":" with
    | [_, _, account, _, _, home, _] => if some account = number then some home else none
    | _ => none

def observe (c : Command) : IO Host := do
  let directory := Path.ofText (← IO.currentDir).toString
  let environment ← variableNames.filterMapM fun name => do
    return (← IO.getEnv name).map (name, ·)
  let home ← observeHome
  let bare : Host :=
    ⟨directory, environment, fun _ => .nothing, fun user => if user.isEmpty then home else none,
      .own, fun text => !text.toList.contains loneHalf⟩
  let seen ← (c.paths bare).mapM fun p => do return (p, ← observeEntity p)
  return { bare with look := fun p => ((seen.find? (·.1 == p)).map (·.2)).getD .nothing }

end FilterTree.Program

open FilterTree

def main (args : List String) : IO UInt32 := do
  match Command.ofArguments args with
  | .error .help =>
    IO.print Program.usageText
    return 0
  | .error .usage =>
    IO.eprint Program.usageText
    return 2
  | .ok c =>
    let host ← Program.observe c
    let input ← if c.file.isSome then pure "" else (← IO.getStdin).readToEnd
    let r := c.run host input
    IO.print (Command.printed r.events)
    match r.result with
    | .ok out =>
      IO.print out
      return 0
    | .error f =>
      IO.eprint ((Command.notice? f).getD s!"Failed: {f.message}\n")
      return 1
