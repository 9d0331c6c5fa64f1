import Foundry.Config.Schema
import Foundry.Text.Blank
import Foundry.Toml.Reader
import Foundry.Toml.Writer

/-!
# The configuration as a document

Each section is a record of a configuration file. Fields that a file leaves out
keep their defaults, and names it does not know are passed over. `check` refuses
values that the service cannot work with.
-/

namespace Foundry

open Toml (Value)

variable (name : String) (v : Value)

/-! ## Reading -/

def optional {α : Type} (decode : Value → Option α) (v : Value) : Option (Option α) :=
  (decode v).map some

/-- Texts by name, sorted; a name given twice keeps the last text. -/
def env? : Option (List (String × String)) := do
  let pairs ← (← v.members?).mapM fun m => m.2.text?.map fun text => (m.1, text)
  return pairs.foldl (fun env p => insertSorted p.1 p.2 env) []

def GeneralSettings.ofValue? : Option GeneralSettings := do
  let r ← v.record?
  let d : GeneralSettings := {}
  return {
    logFormat := ← r.read 0 "log_format" Value.text? d.logFormat
    auditLog := ← r.read 1 "audit_log" Value.flag? d.auditLog }

def ServerSettings.ofValue? : Option ServerSettings := do
  let r ← v.record?
  let d : ServerSettings := {}
  return {
    bind := ← r.read 0 "bind" Value.text? d.bind
    maxBodyBytes := ← r.read 1 "max_body_bytes" Value.count? d.maxBodyBytes }

def Limits.ofValue? : Option Limits := do
  let r ← v.record?
  let d : Limits := {}
  return {
    maxSourceBytes := ← r.read 0 "max_source_bytes" Value.count? d.maxSourceBytes
    maxTimeout := ← r.read 1 "max_timeout_secs" Value.measure? d.maxTimeout
    defaultTimeout := ← r.read 2 "default_timeout_secs" Value.measure? d.defaultTimeout
    denyPatterns := ← r.read 3 "deny_patterns" Value.texts? d.denyPatterns }

def CacheSettings.ofValue? : Option CacheSettings := do
  let r ← v.record?
  let d : CacheSettings := {}
  return {
    enabled := ← r.read 0 "enabled" Value.flag? d.enabled
    dir := ← r.read 1 "dir" (optional Value.text?) d.dir
    maxEntries := ← r.read 2 "max_entries" Value.count? d.maxEntries
    maxAgeSecs := ← r.read 3 "max_age_secs" Value.count? d.maxAgeSecs }

def TemplateSettings.ofValue? : Option TemplateSettings := do
  let r ← v.record?
  let d : TemplateSettings := {}
  return {
    enabled := ← r.read 0 "enabled" Value.flag? d.enabled
    dir := ← r.read 1 "dir" (optional Value.text?) d.dir
    buildArgs := ← r.read 2 "build_args" Value.texts? d.buildArgs
    manifest := ← r.read 3 "manifest" Value.text? d.manifest
    sourceFile := ← r.read 4 "source_file" Value.text? d.sourceFile
    source := ← r.read 5 "source" Value.text? d.source
    buildTimeoutSecs := ← r.read 6 "build_timeout_secs" Value.count? d.buildTimeoutSecs
    lockWaitSecs := ← r.read 7 "lock_wait_secs" Value.count? d.lockWaitSecs
    warmOnStart := ← r.read 8 "warm_on_start" Value.flag? d.warmOnStart }

def WorkspaceSettings.ofValue? : Option WorkspaceSettings := do
  let r ← v.record?
  return { root := ← r.read 0 "root" (optional Value.text?) none }

def Dependency.ofValue? : Option Dependency := do
  let r ← v.record?
  let d : Dependency := {}
  return {
    name := ← r.read 0 "name" Value.text? d.name
    remote := ← r.read 1 "remote" Value.text? d.remote
    localRef := ← r.read 2 "local" Value.text? d.localRef }

def Toolchain.ofValue? (v : Value) : Option Toolchain := do
  let r ← v.record?
  let d : Toolchain := {}
  return {
    buildCommand := ← r.read 0 "build_command" Value.text? d.buildCommand
    buildArgs := ← r.read 1 "build_args" Value.texts? d.buildArgs
    runCommand := ← r.read 2 "run_command" Value.text? d.runCommand
    runArgs := ← r.read 3 "run_args" Value.texts? d.runArgs
    env := ← r.read 4 "env" env? d.env
    manifestFile := ← r.read 5 "manifest_file" Value.text? d.manifestFile
    manifest := ← r.read 6 "manifest" Value.text? d.manifest
    sourceFile := ← r.read 7 "source_file" Value.text? d.sourceFile
    source := ← r.read 8 "source" Value.text? d.source
    sentinel := ← r.read 9 "sentinel" Value.text? d.sentinel
    artifacts := ← r.read 10 "artifacts" Value.texts? d.artifacts
    dependency := ← r.read 11 "dependency" Dependency.ofValue? d.dependency }

def Config.ofValue? (v : Value) : Option Config := do
  let r ← v.record?
  let d : Config := {}
  return {
    general := ← r.read 0 "general" GeneralSettings.ofValue? d.general
    server := ← r.read 1 "server" ServerSettings.ofValue? d.server
    limits := ← r.read 2 "limits" Limits.ofValue? d.limits
    cache := ← r.read 3 "cache" CacheSettings.ofValue? d.cache
    template := ← r.read 4 "template" TemplateSettings.ofValue? d.template
    workspace := ← r.read 5 "workspace" WorkspaceSettings.ofValue? d.workspace
    toolchain := ← r.read 6 "toolchain" Toolchain.ofValue? d.toolchain }

def Config.parse? (text : String) : Option Config := do
  Config.ofValue? (.table (← Toml.parse? text))

/-! ## Writing -/

def textField (text : String) : List (String × Value) := [(name, .string text)]

def countField (n : Nat) : List (String × Value) := [(name, .integer n)]

def flagField (flag : Bool) : List (String × Value) := [(name, .boolean flag)]

def textsField (texts : List String) : List (String × Value) :=
  [(name, .array (texts.map .string))]

/-- A text that is absent is left out. -/
def optionalField : Option String → List (String × Value)
  | some text => textField name text
  | none => []

def GeneralSettings.members (s : GeneralSettings) : List (String × Value) :=
  textField "log_format" s.logFormat ++ flagField "audit_log" s.auditLog

def ServerSettings.members (s : ServerSettings) : List (String × Value) :=
  textField "bind" s.bind ++ countField "max_body_bytes" s.maxBodyBytes

def Limits.members (l : Limits) : List (String × Value) :=
  countField "max_source_bytes" l.maxSourceBytes ++
  [("max_timeout_secs", .float l.maxTimeout), ("default_timeout_secs", .float l.defaultTimeout)] ++
  textsField "deny_patterns" l.denyPatterns

def CacheSettings.members (s : CacheSettings) : List (String × Value) :=
  flagField "enabled" s.enabled ++ optionalField "dir" s.dir ++
  countField "max_entries" s.maxEntries ++ countField "max_age_secs" s.maxAgeSecs

def TemplateSettings.members (s : TemplateSettings) : List (String × Value) :=
  flagField "enabled" s.enabled ++ optionalField "dir" s.dir ++
  textsField "build_args" s.buildArgs ++ textField "manifest" s.manifest ++
  textField "source_file" s.sourceFile ++ textField "source" s.source ++
  countField "build_timeout_secs" s.buildTimeoutSecs ++
  countField "lock_wait_secs" s.lockWaitSecs ++ flagField "warm_on_start" s.warmOnStart

def WorkspaceSettings.members (s : WorkspaceSettings) : List (String × Value) :=
  optionalField "root" s.root

def Dependency.members (d : Dependency) : List (String × Value) :=
  textField "name" d.name ++ textField "remote" d.remote ++ textField "local" d.localRef

def Toolchain.members (t : Toolchain) : List (String × Value) :=
  textField "build_command" t.buildCommand ++ textsField "build_args" t.buildArgs ++
  textField "run_command" t.runCommand ++ textsField "run_args" t.runArgs ++
  [("env", .table (t.env.map fun p => (p.1, .string p.2)))] ++
  textField "manifest_file" t.manifestFile ++ textField "manifest" t.manifest ++
  textField "source_file" t.sourceFile ++ textField "source" t.source ++
  textField "sentinel" t.sentinel ++ textsField "artifacts" t.artifacts ++
  [("dependency", .table t.dependency.members)]

def Config.members (c : Config) : List (String × Value) :=
  [("general", .table c.general.members), ("server", .table c.server.members),
   ("limits", .table c.limits.members), ("cache", .table c.cache.members),
   ("template", .table c.template.members), ("workspace", .table c.workspace.members),
   ("toolchain", .table c.toolchain.members)]

def Config.render (c : Config) : Except String String := Toml.write c.members

/-! ## Checking -/

/-- One day, the longest timeout that can be configured. -/
def timeoutCeiling : Nat := 86400

def Config.check (c : Config) : Except String Unit :=
  let zero := Binary64.zero false
  let max := c.limits.maxTimeout
  let default := c.limits.defaultTimeout
  if !(zero.lt max && max.le (Binary64.ofNat timeoutCeiling)) then
    .error s!"limits.max_timeout_secs must be in (0, {timeoutCeiling}]"
  else if !(zero.lt default) || max.lt default then
    .error "limits.default_timeout_secs must be in (0, limits.max_timeout_secs]"
  else if (Text.trim c.toolchain.buildCommand).isEmpty ||
      (Text.trim c.toolchain.runCommand).isEmpty then
    .error "toolchain.build_command and toolchain.run_command are required"
  else if (Text.trim c.toolchain.sentinel).isEmpty then
    .error "toolchain.sentinel must not be empty"
  else .ok ()

end Foundry
