import Foundry.Config.Document
import Foundry.Files.Path
import Foundry.Program

/-!
# The configuration file

A missing file means the defaults. A file that is there must be readable, well
formed and acceptable.
-/

namespace Foundry

open Program

namespace Config

/-- What is said of a file that is not well formed. -/
def malformed : String := "TOML parse error"

/-- The configuration in a text, if it is well formed and acceptable. -/
def ofText (path text : String) : Except Fault Config :=
  match Config.parse? text with
  | none => .error (.configInvalid path malformed)
  | some config =>
    match config.check with
    | .error reason => .error (.configInvalid path reason)
    | .ok _ => .ok config

def load (path : String) : Action Config := do
  if ← ask (.pathExists path) then
    let text ← orFault s!"reading config from {path}" (readTextFile path)
    ExceptT.mk (pure (ofText path text))
  else return {}

def save (config : Config) (path : String) : Action Unit := do
  match Path.parent? path with
  | some dir => orFail (.configDirCreate dir) (ask (.makeDirs dir))
  | none => pure ()
  match config.render with
  | .error reason => throw (.configUnwritable reason)
  | .ok text => orFault s!"writing config to {path}" (ask (.writeFile path text.toUTF8))

end Config

end Foundry
