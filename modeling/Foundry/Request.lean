import Foundry.Config.Schema
import Foundry.Fault
import Foundry.Text.Blank
import Foundry.Text.Search
import Foundry.Time.Duration

/-!
# Requests

A request is a trimmed source with the time it may take. The conditions are
tested in a fixed order, so a source with several faults is always refused for
the same one.
-/

namespace Foundry

structure Request where
  source : String
  timeout : Duration
deriving DecidableEq, Repr

namespace Limits

/-- The first configured pattern that stands in the source; empty patterns never match. -/
def forbidden? (limits : Limits) (source : String) : Option String :=
  limits.denyPatterns.find? fun pattern =>
    !pattern.isEmpty && Text.occursIn pattern.toList source.toList

/-- The span for that many seconds, if it is positive and within the limit. -/
def timeout? (limits : Limits) (seconds : Binary64) : Option Duration :=
  match Duration.ofSeconds? seconds with
  | some span =>
    if (Binary64.zero false).lt seconds && seconds.le limits.maxTimeout then some span else none
  | none => none

/-- Accept a source with an optional timeout in seconds. -/
def validate (limits : Limits) (source : String) (timeout : Option Binary64) :
    Except Fault Request :=
  let trimmed := Text.trim source
  if trimmed.isEmpty then .error .emptySource
  else if limits.maxSourceBytes < trimmed.utf8ByteSize then
    .error (.sourceTooLarge trimmed.utf8ByteSize limits.maxSourceBytes)
  else
    let seconds := timeout.getD limits.defaultTimeout
    match limits.timeout? seconds with
    | none => .error (.invalidTimeout seconds limits.maxTimeout)
    | some span =>
      match limits.forbidden? trimmed with
      | some pattern => .error (.forbiddenPattern pattern)
      | none => .ok ⟨trimmed, span⟩

end Limits

end Foundry
