import Foundry.Command
import Foundry.Config.Schema
import Foundry.Files.Path
import Foundry.Glob
import Foundry.Placeholder
import Foundry.Program

/-!
# Workspaces

Each request gets a fresh directory with one manifest and one source file. The
directory, and what the toolchain builds for it elsewhere, is removed when the
request ends, whichever way it ends.
-/

namespace Foundry

open Program

/-- Which reference to the shared dependency a manifest gets. -/
inductive DependencyRef where
  | prebuilt
  | remote
deriving DecidableEq, Repr, Inhabited

structure Workspace where
  root : String
  manifestFile : String
  sourceFile : String
  /-- A name of its own, also that of the built program. -/
  package : String
  /-- Patterns of what is built for the workspace outside of it. -/
  artifacts : List String
deriving DecidableEq, Repr, Inhabited

/-- The workspaces below one root, for one toolchain. -/
structure Workspaces where
  root : String
  templateRoot : String
  toolchain : Toolchain
deriving DecidableEq, Repr, Inhabited

/-- An identifier of 32 digits in groups of 8, 4, 4, 4 and 12. -/
def hyphenated (id : String) : String :=
  let cs := id.toList
  String.ofList (cs.take 8 ++ '-' :: (cs.drop 8).take 4 ++ '-' :: (cs.drop 12).take 4 ++
    '-' :: (cs.drop 16).take 4 ++ '-' :: cs.drop 20)

def makeParent (path : String) : Action Unit :=
  match Path.parent? path with
  | some dir => orFault s!"creating {dir}" (ask (.makeDirs dir))
  | none => pure ()

namespace Workspaces

variable (b : Workspaces)

/-- The values that commands of a workspace may refer to. -/
def bindings (package root : String) : Bindings :=
  .ofList [("package", package), ("workspace", root), ("template", b.templateRoot),
    ("dependency_name", b.toolchain.dependency.name),
    ("dependency_remote", b.toolchain.dependency.remote)]

/-- Patterns for one workspace. The paths put into them stand for themselves. -/
def artifactPatterns (package root : String) : List String :=
  let values := Bindings.ofList [("package", package), ("workspace", Glob.escape root),
    ("template", Glob.escape b.templateRoot)]
  b.toolchain.artifacts.map values.render

def dependencyText : DependencyRef → String
  | .prebuilt =>
    (Bindings.ofList [("template", b.templateRoot)]).render b.toolchain.dependency.localRef
  | .remote => b.toolchain.dependency.remote

/-- The values that the files of a workspace may refer to. -/
def fileBindings (package root source : String) (dependency : DependencyRef) : Bindings :=
  (((b.bindings package root).set "dependency" (b.dependencyText dependency)).set
    "sentinel" b.toolchain.sentinel).set "source" source

def writeWithDirs (path text : String) : Action Unit := do
  makeParent path
  orFault s!"writing {path}" (ask (.writeFile path text.toUTF8))

def describe (id : String) : Workspace :=
  let root := Path.join b.root ("kiln-" ++ hyphenated id)
  let package := "kiln_" ++ id
  { root, package
    manifestFile := Path.join root b.toolchain.manifestFile
    sourceFile := Path.join root b.toolchain.sourceFile
    artifacts := b.artifactPatterns package root }

variable (w : Workspace)

def writeFiles (source : String) (dependency : DependencyRef) : Action Unit := do
  let values := b.fileBindings w.package w.root source dependency
  writeWithDirs w.manifestFile (values.render b.toolchain.manifest)
  writeWithDirs w.sourceFile (values.render b.toolchain.source)

def command (stage program : String) (args : List String) : Command :=
  let values := b.bindings w.package w.root
  { stage, program := values.render program, cwd := w.root
    args := args.map values.render
    env := b.toolchain.env.map fun p => (p.1, values.render p.2) }

def buildCommand : Command :=
  b.command w "build" b.toolchain.buildCommand b.toolchain.buildArgs

def runCommand : Command :=
  b.command w "run" b.toolchain.runCommand b.toolchain.runArgs

end Workspaces

/-! ## Removal -/

def warnAll : List String → Program Unit
  | [] => return ()
  | w :: rest => do
    ask (.warn w [])
    warnAll rest

def sweepAll : List String → Program Unit
  | [] => return ()
  | p :: rest => do
    warnAll (← ask (.sweep p))
    sweepAll rest

/-- Remove a workspace and then what was built for it elsewhere. -/
def removeWorkspace (root : String) (artifacts : List String) : Program Unit := do
  match ← ask (.removeTree root) with
  | .ok _ => pure ()
  | .error e =>
    if !isMissing e then ask (.warn s!"Failed to remove workspace {root}: {e.message}" [])
  sweepAll artifacts

def Debt.pay : Debt → Program Unit
  | .workspace root artifacts => removeWorkspace root artifacts
  | .lock path handle => do
    match ← ask (.markLock handle .empty) with
    | .ok _ => pure ()
    | .error e => ask (.warn s!"Failed to clear template lock {path}: {e.message}" [])
    ask (.closeLock handle)

/-- Run a program that owes something, and pay afterwards. -/
def owing {α : Type} (debt : Debt) (p : Program α) : Program α := do
  ask (.owe debt)
  let a ← p
  ask .settle
  debt.pay
  return a

namespace Workspace

def debt (w : Workspace) : Debt := .workspace w.root w.artifacts

/-- Remove a workspace that is owed. -/
def drop (w : Workspace) : Program Unit := do
  ask .settle
  w.debt.pay

end Workspace

namespace Workspaces

/-- Make the directory of a workspace and its files. Once the directory is there it is owed; if the
files cannot be written it is removed again. -/
def furnish (b : Workspaces) (source : String) (dependency : DependencyRef) (w : Workspace) :
    Action (Advised Workspace) := do
  orFail (.workspaceCreate w.root) (ask (.makeDir w.root))
  ask (.owe w.debt)
  let warning := match ← ask (.restrict w.root) with
    | .ok _ => none
    | .error e => some s!"could not restrict permissions on {w.root}: {e.message}"
  match ← attempt (b.writeFiles w source dependency) with
  | .ok _ => return ⟨w, warning⟩
  | .error fault =>
    w.drop
    throw fault

/-- Make a workspace around a source, under a fresh name. -/
def create (b : Workspaces) (source : String) (dependency : DependencyRef) :
    Action (Advised Workspace) := do
  orFail (.workspaceCreate b.root) (ask (.makeDirs b.root))
  b.furnish source dependency (b.describe (← ask .freshId))

end Workspaces

end Foundry
