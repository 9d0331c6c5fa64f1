import Foundry.Cause
import Foundry.Number.Decimal

/-!
# Faults

Every way in which the service can refuse or fail a request, with the wording
that reaches the user, the class that decides the answer's status, and the hint
shown next to it.
-/

namespace Foundry

inductive Fault where
  | emptySource
  | sourceTooLarge (size max : Nat)
  | invalidTimeout (seconds max : Binary64)
  | invalidRequest (reason : String)
  | forbiddenPattern (pattern : String)
  | noOutput
  | build (output : String)
  | runtime (code : Int) (stderr : String)
  | timeout (stage : String) (seconds : Binary64)
  | cancelled
  | workspaceCreate (path : String) (cause : Cause)
  | templateBuild (reason : String)
  | configInvalid (path reason : String)
  | configDirCreate (path : String) (cause : Cause)
  | files (context : String) (cause : Cause)
  | commandFailed (command : String) (cause : Cause)
  | json (reason : String)
  | configSyntax (reason : String)
  | configUnwritable (reason : String)
  | internal (reason : String)
deriving DecidableEq, Repr, Inhabited

namespace Fault

def message : Fault → String
  | .emptySource => "Source text is empty"
  | .sourceTooLarge size max => s!"Source text is too large: {size} bytes (maximum {max})"
  | .invalidTimeout seconds max =>
    "Invalid timeout: " ++ Decimal.text Decimal.plain seconds ++
      " seconds (must be greater than 0 and at most " ++ Decimal.text Decimal.plain max ++ ")"
  | .invalidRequest reason => "Invalid request: " ++ reason
  | .forbiddenPattern pattern => "Source text contains a forbidden pattern: " ++ pattern
  | .noOutput => "Failed to decode output: the program produced no readable stdout"
  | .build output => "Build failed:\n" ++ output
  | .runtime code stderr => s!"Program exited with code {code}:\n" ++ stderr
  | .timeout stage seconds => stage ++ " timed out after " ++ Decimal.fixed 1 seconds ++ "s"
  | .cancelled => "Execution cancelled"
  | .workspaceCreate path cause =>
    "Failed to create workspace " ++ path ++ ": " ++ cause.message
  | .templateBuild reason => "Dependency template build failed: " ++ reason
  | .configInvalid path reason => "Invalid configuration at " ++ path ++ ": " ++ reason
  | .configDirCreate path cause =>
    "Failed to create config directory " ++ path ++ ": " ++ cause.message
  | .files context _ => "IO error: " ++ context
  | .commandFailed command _ => "Command failed: " ++ command
  | .json reason => "JSON error: " ++ reason
  | .configSyntax reason => "TOML parse error: " ++ reason
  | .configUnwritable reason => "TOML serialize error: " ++ reason
  | .internal reason => "Internal error: " ++ reason

/-- Faults of the input itself, as opposed to faults of carrying it out. -/
def isValidation : Fault → Bool
  | .emptySource | .sourceTooLarge .. | .invalidTimeout .. | .invalidRequest _
  | .forbiddenPattern _ | .noOutput => true
  | _ => false

/-- What the user can do about a fault, where there is something to say. -/
def hint? : Fault → Option String
  | .timeout .. => some "Increase the timeout or simplify the script"
  | .sourceTooLarge .. => some "Split the script into smaller pieces"
  | .forbiddenPattern _ =>
    some "Process spawning and raw OS access are not allowed in scripts"
  | .templateBuild _ => some "Run: kiln template clear && kiln template warm -v"
  | .configInvalid .. => some "Run: kiln config init --force"
  | _ => none

/-- The text of the underlying error, for the faults that carry one. -/
def cause? : Fault → Option String
  | .workspaceCreate _ cause | .configDirCreate _ cause | .files _ cause
  | .commandFailed _ cause => some cause.message
  | .json reason | .configUnwritable reason => some reason
  | _ => none

end Fault

end Foundry
