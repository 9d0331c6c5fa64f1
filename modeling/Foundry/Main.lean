import Foundry.Cli.Run

/-!
# The command line

Runs the program on a model machine that holds the files which the arguments name,
prints what it printed and ends with its exit code.
-/

namespace Foundry

namespace Cli

def consulted : List String :=
  ["PATH", "HOME", "TMPDIR", "XDG_CONFIG_HOME", "XDG_CACHE_HOME", "XDG_STATE_HOME", configVariable]

def readEnvironment : IO Environment := do
  let found ← consulted.mapM fun name => do return (name, ← IO.getEnv name)
  return found.filterMap fun e => e.2.map (e.1, ·)

/-- Put the file at a path onto the machine, if there is one. -/
def bring (cwd : Place) (files : Files) (path : String) : IO Files := do
  try
    return files.install cwd path (.bytes (← IO.FS.readBinFile path))
  catch _ => return files

/-- The source is read from the standard input unless a file is named. -/
def wantsInput (environment : Environment) (args : List String) : Bool :=
  match parse environment args with
  | .ok { order := .generate file .., .. } => file.getD "-" = "-"
  | _ => false

def ownPid : Nat := 100

def runMain (args : List String) : IO UInt32 := do
  let environment ← readEnvironment
  let dir := (← IO.currentDir).toString
  let cwd := Path.names dir
  let places := Places.ofEnvironment environment
  let named := places.configFile :: (environment.lookup configVariable).toList ++ args
  let files ← named.foldlM (bring cwd) (Files.system.install [] dir .dir)
  let stdin ← if wantsInput environment args then (← IO.getStdin).readBinToEnd else pure .empty
  let machine : Machine :=
    { kernel := .boot ownPid files cwd, runner := .processes, job := pure (.ok false)
      launch := launch environment }
  match (run { args, environment, stdin, logs := true } machine).2 with
  | some t =>
    IO.print t.stdout
    IO.eprint t.stderr
    return t.exit.toUInt32
  | none => return 0

end Cli

end Foundry

def main (args : List String) : IO UInt32 := Foundry.Cli.runMain args
