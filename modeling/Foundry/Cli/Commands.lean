import Foundry.Body
import Foundry.Cli.Arguments
import Foundry.Cli.Report
import Foundry.Config.Store
import Foundry.Service

/-!
# The commands

What each order of the command line does and prints.
-/

namespace Foundry

open Program

namespace Cli

/-- What an order is carried out with. -/
structure Setting where
  config : Config
  configPath : String
  service : Service
  stdin : ByteArray
  session : Session := {}

namespace Setting

open Printing

/-! ## The cache -/

variable (s : Setting)

def cacheStats (format : OutputFormat) : Printing Unit := do
  let cache := s.config.cache
  let stats ← act s.service.cache.stats
  match format with
  | .json =>
    let stats : Json := .object [
      ("bytes", .integer stats.bytes), ("dir", .string s.service.cache.dir),
      ("enabled", .bool cache.enabled), ("entries", .integer stats.entries),
      ("max_age_secs", .integer cache.maxAgeSecs), ("max_entries", .integer cache.maxEntries)]
    line stats.pretty
  | .plain =>
    line "Output cache"
    field "Directory" s.service.cache.dir
    status "Enabled" (if cache.enabled then "yes" else "no") cache.enabled
    field "Entries" s!"{stats.entries} / {cache.maxEntries}"
    field "Size" (sizeText stats.bytes)
    field "Max age" s!"{cache.maxAgeSecs}s"

/-- The advice where a question was not answered with yes. -/
def passYes : String := "Pass --yes to skip the prompt"

/-- Whether the user agrees, given in advance or by default not at all. -/
def agrees (yes : Bool) : Bool := (s.session.withAutoYes yes).confirm false false

def cacheClear (yes : Bool) : Printing Unit := do
  if s.agrees yes then
    act s.service.clearCache
    step "Output cache cleared" s.service.cache.dir
  else caution "Cache not cleared" passYes

/-! ## The template -/

def templateDisabled : Printing Unit := caution "Template disabled" "Set template.enabled = true"

def templateStatus : Printing Unit := do
  let state ← act (ExceptT.lift s.service.template.state)
  line "Dependency template"
  field "Directory" s.service.template.root
  field "Dependency" s.config.toolchain.dependency.name
  status "State" state.name (state = .ready)
  if !s.config.template.enabled then templateDisabled
  else if state = .missing then remark "Run: kiln template warm"

def templateWarm : Printing Unit := do
  if s.config.template.enabled then
    start s!"Building {s.config.toolchain.dependency.name} template..."
    match ← tryAct s.service.warm with
    | .ok true => finish "Template built"
    | .ok false => finish "Template already ready"
    | .error fault =>
      fail "Template build failed"
      throw fault
  else templateDisabled

def templateClear (yes : Bool) : Printing Unit := do
  if s.agrees yes then
    act s.service.clearTemplate
    step "Template removed" s.service.template.root
  else caution "Template kept" passYes

/-! ## The configuration -/

def configShow : Printing Unit :=
  match s.config.render with
  | .ok text => line text
  | .error reason => throw (.configUnwritable reason)

def configInit (force : Bool) : Printing Unit := do
  let isThere ← act (ExceptT.lift (ask (.pathExists s.configPath)))
  if isThere && !force then
    caution s!"Config already exists at {s.configPath}" "Use --force to overwrite"
  else
    act (Config.save {} s.configPath)
    step "Configuration initialized" s.configPath

/-! ## Generating and serving -/

/-- The text of the script: a file, or what stands on the standard input. -/
def readSource (file : Option String) : Action String :=
  match file.filter (· ≠ "-") with
  | some path => orFault s!"reading {path}" (readTextFile path)
  | none =>
    match String.fromUTF8? s.stdin with
    | some text => pure text
    | none => throw (.files "reading stdin" .notText)

def generate (file : Option String) (timeout : Option Binary64) (format : OutputFormat)
    : Printing Unit := do
  let source ← act (s.readSource file)
  let outcome ← tryAct (s.service.generate source timeout)
  match format, outcome with
  | .plain, .ok generated => line generated.output
  | .plain, .error fault => throw fault
  | .json, .ok generated => line (Response.ofOutput generated.output).toJson.pretty
  | .json, .error fault =>
    line (Response.ofFault fault).toJson.pretty
    throw fault

/-- Build the template in the background of the server; a failure is only reported. -/
def warmQuietly : Program (Except Fault Bool) := do
  match ← s.service.warm.run with
  | .ok built => return .ok built
  | .error fault =>
    ask (.warn ("Failed to warm dependency template: " ++ fault.message) [])
    return .error fault

def serve (address? : Option String) (noWarm : Bool) : Action Unit := do
  let address := address?.getD s.config.server.bind
  orFault s!"binding {address}" (ask (.listen address))
  if s.config.template.enabled && s.config.template.warmOnStart && !noWarm then
    let _ ← ask .startJob
  ask .awaitInterrupt

/-! ## All of them -/

def perform : Order → Printing Unit
  | .serve address? noWarm => act (s.serve address? noWarm)
  | .generate file timeout format => s.generate file timeout format
  | .cacheStats format => s.cacheStats format
  | .cacheClear yes => s.cacheClear yes
  | .templateStatus => s.templateStatus
  | .templateWarm => s.templateWarm
  | .templateClear yes => s.templateClear yes
  | .config none | .config (some .show_) => s.configShow
  | .config (some .path) => line s.configPath
  | .config (some (.init force)) => s.configInit force

def background : Order → Program (Except Fault Bool)
  | .serve .. => s.warmQuietly
  | _ => s.service.ensureTemplate.run

end Setting

/-- The configuration for an order. A broken file must not stand in the way of writing a new one. -/
def configFor (path : String) : Order → Action Config
  | .config (some (.init _)) => return {}
  | _ => Config.load path

end Cli

end Foundry
