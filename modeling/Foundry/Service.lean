import Foundry.Audit
import Foundry.Cache.Store
import Foundry.Config.Places
import Foundry.Request
import Foundry.Sentinel
import Foundry.Template
import Foundry.Workspace

/-!
# The service

A request is validated, answered from the cache if its output is known, and
otherwise built and run in a workspace of its own. Template, build and run share the
request's deadline. A template build goes on in the background when its request ends.
-/

namespace Foundry

open Program

structure Service where
  limits : Limits
  cache : Cache
  cacheEnabled : Bool
  template : Template
  templateEnabled : Bool
  workspaces : Workspaces
  audit : AuditLog
  sentinel : String

/-- An output, and whether it came from the cache. -/
structure Generated where
  output : String
  cached : Bool
deriving DecidableEq, Repr, Inhabited

namespace Service

def ofConfig (places : Places) (c : Config) : Service :=
  let templateRoot := places.template c
  { limits := c.limits
    cache := .ofSettings (places.outputs c) c.cache.maxEntries c.cache.maxAgeSecs
    cacheEnabled := c.cache.enabled
    template := .ofConfig templateRoot c
    templateEnabled := c.template.enabled
    workspaces := ⟨places.workspaces c, templateRoot, c.toolchain⟩
    audit := ⟨c.general.auditLog, places.auditLog⟩
    sentinel := c.toolchain.sentinel }

variable (s : Service)

def withAudit (audit : AuditLog) : Service := { s with audit }

def elapsedSince (start : Nat) : Program Duration := do
  return ⟨(← ask .clock) - start⟩

/-- Measure a program under a name. -/
def timed {α : Type} (operation : String) (p : Program α) : Program α := do
  let start ← ask .clock
  let a ← p
  ask (.record operation (← elapsedSince start))
  return a

/-! ## The template -/

def auditBuilt (built : Bool) : Program Unit :=
  if built then s.audit.record (.templateBuilt s.template.root.toUTF8) else return ()

/-- Make sure of the template, measure it and record a build. -/
def ensureTemplate : Action Bool := do
  let start ← ask .clock
  let built ← s.template.ensure
  ask (.record "template_ensure" (← elapsedSince start))
  s.auditBuilt built
  return built

/-- Build the template now, if it is in use and not built yet. -/
def warm : Action Bool := do
  if s.templateEnabled then s.ensureTemplate else return false

/-- The reference for a new workspace. Problems with the template only cost speed, but the
request can run out of time or be cancelled while it waits. -/
def dependencyRef (request : Request) (deadline : Nat) : Action DependencyRef := do
  if !s.templateEnabled then return .remote
  else if ← s.template.isReady then return .prebuilt
  else
    let job ← ask .startJob
    match ← ask (.awaitJob job deadline) with
    | .finished (.ok _) => return .prebuilt
    | .finished (.error fault) =>
      ask (.warn
        ("Dependency template unavailable, using remote dependency: " ++ fault.message) [])
      return .remote
    | .expired =>
      ask (.warn "Template not ready within the request deadline" [])
      throw (.timeout "template" request.timeout.toSeconds)
    | .cancelled => throw .cancelled

/-! ## Building and running -/

/-- Run a stage with what is left of the deadline. A timeout names the whole span. -/
def runStage (command : Command) (request : Request) (deadline : Nat) : Action CommandResult := do
  let total := request.timeout.toSeconds
  let remaining : Duration := ⟨deadline - (← ask .clock)⟩
  if remaining.nanos = 0 then throw (.timeout command.stage total)
  match ← attempt (ExceptT.mk (timed command.stage (execute command remaining).run)) with
  | .error (.timeout stage _) => throw (.timeout stage total)
  | .error fault => throw fault
  | .ok result => return result

/-- What is made of a run that has come to an end. -/
def readRun (run : CommandResult) : Except Fault String :=
  if run.code ≠ 0 then .error (.runtime run.code (Text.trim (run.stderrText?.getD "")))
  else
    match run.stdoutText? with
    | none => .error .noOutput
    | some stdout => .ok (Sentinel.payload stdout s.sentinel)

/-- Build what is in a workspace and, if that succeeds, run it. -/
def buildThenRun (w : Workspace) (request : Request) (deadline : Nat) : Action String := do
  let build ← runStage (s.workspaces.buildCommand w) request deadline
  if build.code = 0 then
    let run ← runStage (s.workspaces.runCommand w) request deadline
    ExceptT.mk (pure (s.readRun run))
  else throw (.build build.combined)

/-- The part of a request that needs to know what its workspace refers to. -/
def work (request : Request) (deadline : Nat) (dependency : DependencyRef) : Action String := do
  let start ← ask .clock
  let advised ← s.workspaces.create request.source dependency
  let w ← advised.settle "workspace hardening"
  ask (.record "workspace_create" (← elapsedSince start))
  let result ← attempt (s.buildThenRun w request deadline)
  w.drop
  ExceptT.mk (pure result)

/-- The part of a request that its deadline covers. -/
def buildAndRun (request : Request) : Action String := do
  let deadline := (← ask .clock) + request.timeout.nanos
  s.work request deadline (← s.dependencyRef request deadline)

/-! ## Requests -/

/-- The cached output, if the cache is in use and has it. -/
def lookup (s : Service) (source : String) : Program (Option String) := do
  if s.cacheEnabled then
    timed "cache_lookup" do
      let hit ← s.cache.get source
      hit.settle "cache lookup"
  else return none

def failureWarning (request : Request) (fault : Fault) : Call :=
  .warn ("Generation failed: " ++ fault.message)
    [("hash", Text.debugQuote (String.ofList ((s.cache.hash request.source).toList.take 12)))]

/-- The end of a request: an output is stored and reported, a failure is reported only. -/
def close (request : Request) (elapsed : Duration) :
    Except Fault String → Action Generated
  | .ok output => do
    if s.cacheEnabled then
      let stored ← s.cache.put request.source output
      stored.settle "cache store"
    s.audit.record (.generationCompleted (s.cache.hash request.source) elapsed.toSeconds)
    return ⟨output, false⟩
  | .error fault => do
    ask (s.failureWarning request fault)
    s.audit.record
      (.generationFailed (s.cache.hash request.source) fault.message elapsed.toSeconds)
    throw fault

/-- Work on a request, time it and close it. -/
def finish (request : Request) (start : Nat) (work : Action String) : Action Generated := do
  let result ← attempt work
  let elapsed ← elapsedSince start
  ask (.record "generate" elapsed)
  s.close request elapsed result

/-- Answer a validated request. -/
def generateRequest (request : Request) : Action Generated := do
  let start ← ask .clock
  match ← s.lookup request.source with
  | some output =>
    ask (.record "generate" (← elapsedSince start))
    return ⟨output, true⟩
  | none => s.finish request start (s.buildAndRun request)

/-- Answer a request. -/
def generate (source : String) (timeout : Option Binary64) : Action Generated := do
  match s.limits.validate source timeout with
  | .error fault => throw fault
  | .ok request => s.generateRequest request

/-! ## Clearing -/

def clearTemplate : Action Unit := do
  s.template.clear
  s.audit.record (.templateCleared s.template.root.toUTF8)

def clearCache : Action Unit := do
  s.cache.clear
  s.audit.record (.cacheCleared s.cache.dir.toUTF8)

end Service

end Foundry
