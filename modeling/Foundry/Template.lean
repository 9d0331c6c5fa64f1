import Foundry.Command
import Foundry.Config.Schema
import Foundry.Placeholder
import Foundry.Workspace

/-!
# The dependency template

The shared dependency is built once into a directory that all workspaces use. A
marker file says that a build has finished. Builders exclude each other by a lock on
a file beside the directory; the holder writes its process number into it and clears
it when done. A builder that waited too long for the lock builds without it.
-/

namespace Foundry

open Program

inductive TemplateState where
  | missing
  | locked
  | ready
deriving DecidableEq, Repr, Inhabited

def TemplateState.name : TemplateState → String
  | .missing => "missing"
  | .locked => "locked"
  | .ready => "ready"

structure Template where
  root : String
  lockPath : String
  buildCommand : String
  buildArgs : List String
  env : List (String × String)
  manifestFile : String
  manifest : String
  sourceFile : String
  source : String
  buildTimeout : Duration
  lockWait : Duration
deriving DecidableEq, Repr, Inhabited

namespace Template

/-- The lock stands beside the directory, under its name. -/
def lockPathOf (root : String) : String :=
  Path.withFileName root ((Path.fileName? root).getD "template" ++ ".lock")

def ofConfig (root : String) (c : Config) : Template :=
  let values := Bindings.ofList [("template", root),
    ("dependency_name", c.toolchain.dependency.name),
    ("dependency_remote", c.toolchain.dependency.remote)]
  { root
    lockPath := lockPathOf root
    buildCommand := values.render c.toolchain.buildCommand
    buildArgs := c.template.buildArgs.map values.render
    env := c.toolchain.env.map fun p => (p.1, values.render p.2)
    manifestFile := c.toolchain.manifestFile
    manifest := values.render c.template.manifest
    sourceFile := c.template.sourceFile
    source := values.render c.template.source
    buildTimeout := .ofNatSeconds c.template.buildTimeoutSecs
    lockWait := .ofNatSeconds c.template.lockWaitSecs }

variable (t : Template)

def manifestPath : String := Path.join t.root t.manifestFile

def sourcePath : String := Path.join t.root t.sourceFile

def marker : String := Path.join t.root ".kiln-ready"

def isReady : Program Bool := ask (.isFile t.marker)

/-! ## State -/

/-- The number in a lock file: digits, perhaps after a plus sign, of a 32-bit number. -/
def holder? (text : String) : Option Nat :=
  let digits := match (Text.trim text).toList with
    | '+' :: rest => rest
    | cs => cs
  if digits.isEmpty || !digits.all Char.isDigit then none
  else
    let n := digits.foldl (fun n c => 10 * n + (c.toNat - 48)) 0
    if n < 0x100000000 then some n else none

/-- A process number as the system takes it: the upper half is negative. -/
def signedPid (n : Nat) : Int := if n < 0x80000000 then n else n - 0x100000000

def isHeld : Program Bool := do
  match ← readTextFile t.lockPath with
  | .error _ => return false
  | .ok text =>
    match holder? text with
    | none => return false
    | some pid => ask (.isAlive (signedPid pid))

def state : Program TemplateState := do
  if ← t.isReady then return .ready
  else if ← t.isHeld then return .locked
  else return .missing

/-! ## Building -/

/-- Wait for the lock and put this process's number into it. None if it is still held when the
waiting time is over. -/
def acquire : Action (Option Nat) := do
  makeParent t.lockPath
  let handle ← orFault s!"opening {t.lockPath}" (ask (.openLock t.lockPath))
  match ← ask (.lock handle t.lockWait) with
  | .acquired =>
    let pid ← ask .ownPid
    match ← ask (.markLock handle s!"{pid}\n".toUTF8) with
    | .ok _ => return some handle
    | .error e =>
      ask (.closeLock handle)
      throw (.files s!"writing {t.lockPath}" e)
  | .stillHeld =>
    ask (.warn "Template lock still held, building without it"
      [("wait_secs", toString t.lockWait.seconds)])
    return none
  | .failed e =>
    ask (.closeLock handle)
    throw (.files s!"locking {t.lockPath}" e)

/-- Remove the directory; trouble is reported. -/
def discard : Program Unit := do
  match ← ask (.removeTree t.root) with
  | .ok _ => return ()
  | .error e =>
    if !isMissing e then ask (.warn s!"Failed to remove template {t.root}: {e.message}" [])

def command : Command :=
  { stage := "template build", program := t.buildCommand, args := t.buildArgs, cwd := t.root,
    env := t.env }

/-- Write the two files of the template, in a directory for its source. -/
def writeFiles : Action Unit := do
  makeParent t.sourcePath
  orFault s!"writing {t.manifestPath}" (ask (.writeFile t.manifestPath t.manifest.toUTF8))
  orFault s!"writing {t.sourcePath}" (ask (.writeFile t.sourcePath t.source.toUTF8))

/-- Build from scratch and leave the marker. -/
def build : Action Unit := do
  t.discard
  t.writeFiles
  match ← attempt (execute t.command t.buildTimeout) with
  | .error (.timeout _ seconds) =>
    throw (.templateBuild ("timed out after " ++ Decimal.fixed 0 seconds ++ "s"))
  | .error fault => throw fault
  | .ok result =>
    if !result.succeeded then throw (.templateBuild result.combined)
    let now ← ask .today
    orFault s!"writing {t.marker}" (ask (.writeFile t.marker now.offsetText.toUTF8))

/-- Build unless another builder has finished meanwhile. A failed build leaves no directory. -/
def buildIfMissing : Program (Except Fault Bool) := do
  if ← t.isReady then return .ok false
  match ← t.build.run with
  | .ok _ => return .ok true
  | .error fault =>
    t.discard
    return .error fault

/-- Make sure that the template is built. Says whether this call built it. -/
def ensure : Action Bool := do
  if ← t.isReady then return false
  match ← t.acquire with
  | some handle => ExceptT.mk (owing (.lock t.lockPath handle) t.buildIfMissing)
  | none => ExceptT.mk t.buildIfMissing

/-- Delete the template, so that the next request builds it again. -/
def clear : Action Unit := do
  match ← ask (.removeTree t.root) with
  | .ok _ => return ()
  | .error e =>
    if isMissing e then return () else throw (.files s!"removing template {t.root}" e)

end Template

end Foundry
