import Foundry.Machine.Runner
import Foundry.Metrics
import Foundry.Workspace

/-!
# Tasks on the model machine

A task is a program under way, with the debts it would leave and the time at which
it is cancelled. Calls that take no time are answered at once; the others put the
task into a phase of waiting, which ends by the clock or by what others do.
-/

namespace Foundry

/-- A command that runs as a process: the leader of its group, and the pipes it writes to. -/
structure Child where
  pid : Nat
  stdout : Nat
  stderr : Nat
  until_ : Nat
  command : Command
  timeout : Duration
deriving Inhabited

inductive Phase (α : Type) where
  | ready (p : Program α)
  /-- A scripted runner takes its time. -/
  | resting (until_ : Nat) (p : Program α)
  | locking (handle : Nat) (until_ : Nat) (next : LockReply → Program α)
  | awaiting (job : Nat) (deadline : Nat) (next : JobReply → Program α)
  | running (child : Child) (next : Except Fault CommandResult → Program α)
  | interruptible (next : Unit → Program α)
  | ended (value : α)

structure Task (α : Type) where
  phase : Phase α
  debts : List Debt := []
  cancelAt : Option Nat := none

def Task.ofProgram {α : Type} (p : Program α) (cancelAt : Option Nat := none) : Task α :=
  { phase := .ready p, cancelAt }

structure Job where
  number : Nat
  task : Task (Except Fault Bool)

/-- A process under way, and until when it sleeps. -/
structure Running where
  pid : Nat
  process : Process
  until_ : Option Nat := none

structure Streams where
  stdin : Nat
  stdout : Nat
  stderr : Nat

structure Machine extends kernel : Kernel where
  runner : Runner
  /-- What the background job of the service is. -/
  job : Program (Except Fault Bool)
  /-- The process that a command becomes, if it can be started. -/
  launch : Kernel → Command → Except Cause (Streams → Process)
  jobs : List Job := []
  nextJob : Nat := 0
  running : List Running := []
  metrics : Metrics := .ofCapacity Metrics.defaultCapacity
  calls : List RunnerCall := []
  warnings : List (String × List (String × String)) := []
  canListen : String → Bool := fun _ => true

namespace Machine

def callCost : Nat := 10000

def startCost : Nat := 1000000

variable (m : Machine)

def withFiles (files : Files) : Machine := { m with kernel := { m.kernel with files } }

/-- Apply a change of files that may fail. -/
def changing (f : Files → Place → Except Cause Files) : Machine × Except Cause Unit :=
  match f m.files m.cwd with
  | .ok files => (m.withFiles files, .ok ())
  | .error e => (m, .error e)

/-- Apply a change of files that may fail half way. -/
def changingPartly (f : Files → Place → Files × Except Cause Unit) : Machine × Except Cause Unit :=
  let (files, r) := f m.files m.cwd
  (m.withFiles files, r)

def seeing {α : Type} (f : Files → Place → α) : Machine × α :=
  (m, f m.files m.cwd)

/-- Answer a call that takes no waiting. -/
def answer? : (c : Call) → Option (Machine × c.Reply)
  | .readFile path => some (m.seeing fun fs cwd => fs.read cwd path)
  | .writeFile path bytes => some (m.changing fun fs cwd => fs.write cwd path bytes)
  | .appendFile path bytes => some (m.changing fun fs cwd => fs.append cwd path bytes)
  | .makeDir path => some (m.changing fun fs cwd => fs.makeDir cwd path)
  | .makeDirs path => some (m.changingPartly fun fs cwd => fs.makeDirs cwd path)
  | .removeFile path => some (m.changing fun fs cwd => fs.removeFile cwd path)
  | .removeTree path => some (m.changingPartly fun fs cwd => fs.removeTree cwd path)
  | .rename source target => some (m.changing fun fs cwd => fs.rename cwd source target)
  | .listDir path => some (m.seeing fun fs cwd => fs.list cwd path)
  | .fileSize path => some (m.seeing fun fs cwd => fs.size cwd path)
  | .isFile path => some (m.seeing fun fs cwd => fs.isFile cwd path)
  | .pathExists path => some (m.seeing fun fs cwd => fs.exists? cwd path)
  | .restrict path => some (m.changing fun fs cwd => fs.setMode cwd path 0o700)
  | .sweep pattern =>
    let (files, warnings) := m.files.sweep m.cwd pattern
    some (m.withFiles files, warnings)
  | .clock => some (m, m.now)
  | .today => some (m, m.today)
  | .freshId =>
    let (id, kernel) := m.kernel.freshId
    some ({ m with kernel }, id)
  | .ownPid => some (m, m.ownPid)
  | .isAlive pid => some (m, m.kernel.canSignal pid)
  | .openLock path =>
    match m.kernel.openLock path with
    | .ok (handle, kernel) => some ({ m with kernel }, .ok handle)
    | .error e => some (m, .error e)
  | .markLock handle bytes =>
    match m.kernel.markLock handle bytes with
    | .ok kernel => some ({ m with kernel }, .ok ())
    | .error e => some (m, .error e)
  | .closeLock handle => some ({ m with kernel := m.kernel.closeLock handle }, ())
  | .startJob =>
    let job : Job := ⟨m.nextJob, .ofProgram m.job⟩
    some ({ m with jobs := m.jobs ++ [job], nextJob := m.nextJob + 1 }, m.nextJob)
  | .record operation elapsed =>
    some ({ m with metrics := m.metrics.record operation elapsed }, ())
  | .warn message fields => some ({ m with warnings := m.warnings ++ [(message, fields)] }, ())
  | .listen address => some (m, if m.canListen address then .ok () else .error (.os 99))
  | .owe _ | .settle => some (m, ())
  | .lock .. | .run .. | .awaitJob .. | .awaitInterrupt => none

/-! ## Commands as processes -/

/-- Start a process for a command, in a group of its own, with two pipes to read from. -/
def spawn (command : Command) (timeout : Duration) : Except Cause (Machine × Child) := do
  let start ← m.launch m.kernel command
  let (stdin, k) := m.kernel.addStream .null
  let (outRead, outWrite, k) := k.makePipe
  let (errRead, errWrite, k) := k.makePipe
  let k := k.hold k.ownPid [outRead, errRead]
  let (pid, k) := k.addProcess k.ownPid none [stdin, outWrite, errWrite]
  let k := k.tick startCost
  let child : Child :=
    { pid, stdout := outRead, stderr := errRead, until_ := k.now + timeout.nanos, command, timeout }
  .ok ({ m with kernel := k, running :=
    m.running ++ [⟨pid, start ⟨stdin, outWrite, errWrite⟩, none⟩] }, child)

/-- Kill everything in a child's group and let go of its pipes. -/
def reap (child : Child) : Machine :=
  let k := m.kernel.signalGroup child.pid Kernel.sigKill
  { m with kernel := (k.close k.ownPid child.stdout).close k.ownPid child.stderr }

/-- What a child came to, once it has ended and nobody writes to its pipes any more. -/
def collected? (child : Child) : Option CommandResult :=
  match m.processes.lookup child.pid with
  | some p =>
    match p.ending with
    | none => none
    | some ending =>
      let isDrained := fun stream =>
        match m.streams.lookup stream with
        | some (.pipe n false) => !m.kernel.pipeIsOpen n true
        | _ => true
      if isDrained child.stdout && isDrained child.stderr then
        let code : Int := match ending with | .exited code => code | .killed _ => -1
        some ⟨code, (m.kernel.peek child.stdout).getD .empty,
          (m.kernel.peek child.stderr).getD .empty⟩
      else none
  | none => some ⟨-1, .empty, .empty⟩

/-! ## Steps of a task -/

variable {α : Type}

def isCancelled (t : Task α) : Bool :=
  match t.cancelAt with
  | some at_ => at_ ≤ m.now
  | none => false

def addCall (command : Command) (timeout : Duration) : Machine :=
  let files := (m.files.snapshot m.cwd command.cwd).getD []
  { m with calls := m.calls ++ [⟨command, timeout, files⟩] }

def startCommand (command : Command) (timeout : Duration)
    (next : Except Fault CommandResult → Program α) : Machine × Phase α :=
  match m.runner with
  | .scripted reactions =>
    let (react, reactions) := takeReaction reactions command.stage
    let m := { m.addCall command timeout with runner := .scripted reactions }
    let r := react command timeout
    let m := m.withFiles (r.apply m.files m.cwd command.cwd)
    (m, .resting (m.now + r.rest.nanos) (next r.outcome))
  | .processes =>
    let m := m.addCall command timeout
    match m.spawn command timeout with
    | .error e => (m, .ready (next (.error (.commandFailed command.display e))))
    | .ok (m, child) => (m, .running child next)

/-- Begin a call that may take waiting. -/
def begin_ (t : Task α) (c : Call) (next : c.Reply → Program α) : Machine × Task α :=
  match c, next with
  | .lock handle wait, next =>
    (m, { t with phase := .locking handle (m.now + wait.nanos) next })
  | .awaitJob job deadline, next => (m, { t with phase := .awaiting job deadline next })
  | .awaitInterrupt, next => (m, { t with phase := .interruptible next })
  | .run command timeout, next =>
    let (m, phase) := m.startCommand command timeout next
    (m, { t with phase })
  | .owe debt, next => (m, { t with phase := .ready (next ()), debts := debt :: t.debts })
  | .settle, next => (m, { t with phase := .ready (next ()), debts := t.debts.tail })
  | c, next =>
    match m.answer? c with
    | some (m, r) => (m, { t with phase := .ready (next r) })
    | none => (m, t)

def jobResult? (number : Nat) : Option (Except Fault Bool) :=
  match m.jobs.find? fun j => j.number = number with
  | some job =>
    match job.task.phase with
    | .ended r => some r
    | _ => none
  | none => none

/-- One step of a task, none if it has to wait or has ended. -/
def stepTask (t : Task α) : Option (Machine × Task α) :=
  let m := { m with kernel := m.kernel.tick callCost }
  let now := m.now
  let goOn := fun (m : Machine) (p : Program α) => some (m, { t with phase := .ready p })
  match t.phase with
  | .ended _ => none
  | .ready (.done a) => some (m, { t with phase := .ended a })
  | .ready (.call c next) => some (m.begin_ t c next)
  | .resting until_ p => if until_ ≤ now then goOn m p else none
  | .locking handle until_ next =>
    match m.kernel.tryLock handle with
    | some kernel => goOn { m with kernel } (next .acquired)
    | none => if until_ ≤ now then goOn m (next .stillHeld) else none
  | .awaiting job deadline next =>
    match m.jobResult? job with
    | some r => goOn m (next (.finished r))
    | none =>
      if m.isCancelled t then goOn m (next .cancelled)
      else if deadline ≤ now then goOn m (next .expired)
      else none
  | .running child next =>
    match m.collected? child with
    | some result => goOn (m.reap child) (next (.ok result))
    | none =>
      if m.isCancelled t then goOn (m.reap child) (next (.error .cancelled))
      else if child.until_ ≤ now then
        goOn (m.reap child) (next (.error (.timeout child.command.stage child.timeout.toSeconds)))
      else none
  | .interruptible next => if m.isCancelled t then goOn m (next ()) else none

/-- When a waiting task has to be looked at again at the latest. -/
def wakeTime? (t : Task α) : Option Nat :=
  let earlier := fun (a : Nat) => match t.cancelAt with | some b => some (min a b) | none => some a
  match t.phase with
  | .resting until_ _ | .locking _ until_ _ => some until_
  | .awaiting _ deadline _ => earlier deadline
  | .running child _ => earlier child.until_
  | .interruptible _ => t.cancelAt
  | _ => none

end Machine

end Foundry
