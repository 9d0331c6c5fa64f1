import Foundry.Machine.Task
import Foundry.Shell.Evaluate

/-!
# Starting commands

The programs that every machine has, and how a command becomes a process: its
directory is entered first, then its program is found and executed.
-/

namespace Foundry

namespace Files

def installed : List String := ["sh", "env", "nice", "nohup", "setsid", "timeout", "test", "["] ++
    Tool.table.map (·.1)

/-- The directories, the device and the programs that every machine has. -/
def system : Files :=
  let dirs : List (Place × Node) :=
    [["dev"], ["root"], ["tmp"], ["usr"], ["usr", "bin"]].map fun p => (p, .dir dirMode)
  let devices := [("null", Device.null), ("zero", .zeros), ("full", .full)].map fun d =>
    (["dev", d.1], Node.device d.2)
  let programs := installed.map fun name => (["usr", "bin", name], Node.program name)
  { nodes := dirs ++ devices ++ [(["bin"], .link "usr/bin")] ++ programs ++
      [(["usr", "bin", "dash"], .program "sh")] }

end Files

def defaultSearchPath : String := "/bin:/usr/bin"

/-- The environment of a command: its own settings win over those it inherits. -/
def Command.environmentFrom (c : Command) (inherited : List (String × String)) :
    List (String × String) :=
  c.env.foldl (fun env e => env.filter (fun o => o.1 ≠ e.1) ++ [e]) inherited

def hasNul (s : String) : Bool := s.toList.contains '\x00'

def launch (inherited : List (String × String)) (k : Kernel) (c : Command) :
    Except Cause (Streams → Process) := do
  let environment := c.environmentFrom inherited
  if hasNul c.program || c.args.any hasNul || hasNul c.cwd ||
      c.env.any (fun e => hasNul e.1 || hasNul e.2) then
    .error (.text "nul byte found in provided data")
  else
    let (place, node) ← k.files.find k.cwd true c.cwd
    if !node.isDir then .error .notDirectory
    else
      let paths := if c.program.toList.contains '/' || c.program.isEmpty then [c.program]
        else Files.searchPaths ((environment.lookup "PATH").getD defaultSearchPath) c.program
      let (_, executable) ← k.files.firstExecutable place paths
      .ok fun streams =>
        let invocation : Invocation :=
          { name := Text.asBytes c.program
            args := c.args.map Text.asBytes
            environment := environment.map fun e => (Text.asBytes e.1, Text.asBytes e.2)
            dir := Text.asBytes ("/" ++ "/".intercalate place)
            streams := [(0, streams.stdin), (1, streams.stdout), (2, streams.stderr)] }
        Shell.execute Shell.runFuel executable invocation .exit

end Foundry
