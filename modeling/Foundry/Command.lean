import Foundry.Text.Blank

/-!
# Commands and their results

A command names the stage it belongs to, the program with its arguments, the
directory it runs in and the variables it is given. Its result is the exit code
and the bytes of both output streams.
-/

namespace Foundry

structure Command where
  stage : String
  program : String
  args : List String := []
  cwd : String
  env : List (String × String) := []
deriving DecidableEq, Repr, Inhabited

namespace Command

variable (c : Command)

def withArgs (args : List String) : Command := { c with args := c.args ++ args }

def withEnv (env : List (String × String)) : Command := { c with env := c.env ++ env }

/-- The command line as one text, without quoting. -/
def display : String := " ".intercalate (c.program :: c.args)

end Command

structure CommandResult where
  code : Int
  stdout : ByteArray
  stderr : ByteArray
deriving Inhabited

namespace CommandResult

variable (r : CommandResult)

def succeeded : Bool := r.code == 0

def stdoutText? : Option String := String.fromUTF8? r.stdout

def stderrText? : Option String := String.fromUTF8? r.stderr

/-- Both streams for a report, error output first; undecodable or blank streams are left out. -/
def combined : String :=
  let err := Text.trimEnd (r.stderrText?.getD "")
  let out := Text.trimEnd (r.stdoutText?.getD "")
  if err.isEmpty then out
  else if out.isEmpty then err
  else err ++ "\n" ++ out

end CommandResult

end Foundry
