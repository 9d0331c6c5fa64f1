import Foundry.Files.Path
import Foundry.Json.Value
import Foundry.Program

/-!
# The audit trail

One JSON object per line for everything that reached the toolchain. Trouble with
the trail is reported and dropped; it never changes the outcome of a request.
-/

namespace Foundry

open Program

/-- Something worth a line. Paths are bytes, which need not be text. -/
inductive AuditEvent where
  | generationCompleted (hash : String) (elapsed : Binary64)
  | generationFailed (hash error : String) (elapsed : Binary64)
  | cacheCleared (dir : ByteArray)
  | templateBuilt (root : ByteArray)
  | templateCleared (root : ByteArray)
deriving Inhabited

namespace AuditEvent

def name : AuditEvent → String
  | .generationCompleted .. => "generation.completed"
  | .generationFailed .. => "generation.failed"
  | .cacheCleared _ => "cache.cleared"
  | .templateBuilt _ => "template.built"
  | .templateCleared _ => "template.cleared"

def pathField (name : String) (path : ByteArray) : Option (List (String × Json)) :=
  (String.fromUTF8? path).map fun text => [(name, .string text)]

/-- The fields of an event. An event whose path is no text has none. -/
def fields? : AuditEvent → Option (List (String × Json))
  | .generationCompleted hash elapsed =>
    some [("hash", .string hash), ("elapsed_secs", .float elapsed)]
  | .generationFailed hash error elapsed =>
    some [("hash", .string hash), ("error", .string error), ("elapsed_secs", .float elapsed)]
  | .cacheCleared dir => pathField "dir" dir
  | .templateBuilt root | .templateCleared root => pathField "root" root

/-- The line of an event without its end. -/
def line? (at_ : Stamp) (e : AuditEvent) : Option Json :=
  e.fields?.map fun fields =>
    .object (("at", .string at_.text) :: ("event", .string e.name) :: fields)

def shownPath (path : ByteArray) : String :=
  Text.debugQuote ((String.fromUTF8? path).getD "")

/-- The event as diagnostics show it. -/
def shown : AuditEvent → String
  | .generationCompleted hash elapsed =>
    "GenerationCompleted \x7b hash: " ++ Text.debugQuote hash ++ ", elapsed_secs: " ++
      Decimal.text Decimal.dotted elapsed ++ " \x7d"
  | .generationFailed hash error elapsed =>
    "GenerationFailed \x7b hash: " ++ Text.debugQuote hash ++ ", error: " ++
      Text.debugQuote error ++ ", elapsed_secs: " ++ Decimal.text Decimal.dotted elapsed ++ " \x7d"
  | .cacheCleared dir => "CacheCleared \x7b dir: " ++ shownPath dir ++ " \x7d"
  | .templateBuilt root => "TemplateBuilt \x7b root: " ++ shownPath root ++ " \x7d"
  | .templateCleared root => "TemplateCleared \x7b root: " ++ shownPath root ++ " \x7d"

end AuditEvent

structure AuditLog where
  enabled : Bool
  path : String
deriving DecidableEq, Repr, Inhabited

namespace AuditLog

/-- Add bytes at the end of the file in one piece. -/
def append (log : AuditLog) (bytes : ByteArray) : Program (Except Cause Unit) := do
  match Path.parent? log.path with
  | some dir =>
    match ← ask (.makeDirs dir) with
    | .error e => return .error e
    | .ok _ => ask (.appendFile log.path bytes)
  | none => ask (.appendFile log.path bytes)

def record (log : AuditLog) (event : AuditEvent) : Program Unit := do
  if log.enabled then
    match event.line? (← ask .today) with
    | none =>
      ask (.warn "Unserializable audit event: path contains invalid UTF-8 characters"
        [("event", event.shown)])
    | some line =>
      match ← log.append (line.compact ++ "\n").toUTF8 with
      | .ok _ => return ()
      | .error e =>
        ask (.warn s!"Audit entry lost, {log.path}: {e.message}" [("event", event.shown)])

end AuditLog

end Foundry
