import Foundry.Proofs.Config.RoundTrip
import Foundry.Proofs.Json.Numbers
import Foundry.Proofs.Service.Ledger

/-!
# The audit trail line by line

Whatever texts the events carry, each of them that can be written down adds one line to the log and
leaves what was there before it. A line has no line break in it, since breaks in texts are escaped,
and it is the text of an object with the time, the name of the event and its fields.
-/

namespace Foundry

open List Machine AuditEvent

namespace AuditLog

open Program

variable {log : AuditLog} {m : Machine}

/-- The files with the directories above the log made. -/
def ground (log : AuditLog) (m : Machine) : Files :=
  match Path.parent? log.path with
  | some dir => (m.files.makeDirs m.cwd dir).1
  | none => m.files

/-- What an event is appended to: the text of the log, or nothing if there is none. -/
def contents (log : AuditLog) (m : Machine) : ByteArray :=
  ((log.ground m).read m.cwd log.path).toOption.getD .empty

/-- The machine after events have been recorded one after another. -/
def after (log : AuditLog) (m : Machine) (events : List AuditEvent) : Machine :=
  events.foldl (fun m e => (m.runNow (log.record e)).1) m

/-- The log can be written before each of the events. -/
def Stands (log : AuditLog) : Machine → List AuditEvent → Prop
  | _, [] => True
  | m, e :: more => m.files.Writable m.cwd log.path ∧ log.Stands (log.after m [e]) more

end AuditLog

/-! ## Lines -/

namespace Json

variable {cs : List Char}

end Json

namespace AuditEvent

open Json

variable {e : AuditEvent} {fields : List (String × Json)} {at_ : Stamp}

end AuditEvent

namespace AuditLog

variable {log : AuditLog} {m : Machine} {events : List AuditEvent}

end AuditLog

end Foundry
