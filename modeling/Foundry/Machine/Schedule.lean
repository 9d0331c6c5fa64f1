import Foundry.Machine.Task

/-!
# Running tasks

One task in front, background jobs and processes take steps in turn. When all of them
wait, the clock moves on to the next time that one of them is waiting for. The task in
front can be abandoned at a time: its command is killed and its debts are paid.
-/

namespace Foundry

variable (m : Machine)

namespace Machine

variable {α : Type}

/-! ## Steps -/

def stepJobs (m : Machine) : List Job → Machine × List Job × Bool
  | [] => (m, [], false)
  | job :: rest =>
    match m.stepTask job.task with
    | some (m, task) =>
      let (m, rest, _) := m.stepJobs rest
      (m, { job with task } :: rest, true)
    | none =>
      let (m, rest, progress) := m.stepJobs rest
      (m, job :: rest, progress)

def processCost : Nat := 2000

/-- One step of a process: the processes it leaves, none if it has to wait. -/
def stepProcess (r : Running) : Option (Machine × List Running) :=
  let k := m.kernel.tick processCost
  if !k.isRunning r.pid then some (m, [])
  else match r.process with
    | .exit code => some ({ m with kernel := k.endProcess r.pid (.exited (code % 256)) }, [])
    | .act step =>
      let (kernel, process) := step r.pid k
      some ({ m with kernel }, [{ r with process }])
    | .await step =>
      match step r.pid k with
      | some (kernel, process) => some ({ m with kernel }, [{ r with process }])
      | none => none
    | .sleep nanos next =>
      match r.until_ with
      | none => some ({ m with kernel := k }, [{ r with until_ := some (k.now + nanos) }])
      | some until_ =>
        if until_ ≤ k.now then some ({ m with kernel := k }, [⟨r.pid, next, none⟩]) else none
    | .fork holds child next =>
      let group := (k.processes.lookup r.pid).map (·.group)
      let (pid, kernel) := k.addProcess r.pid group holds
      some ({ m with kernel }, [{ r with process := next pid }, ⟨pid, child, none⟩])

def stepProcesses (m : Machine) : List Running → Machine × List Running × Bool
  | [] => (m, [], false)
  | r :: rest =>
    match m.stepProcess r with
    | some (m, mine) =>
      let (m, rest, _) := m.stepProcesses rest
      (m, mine ++ rest, true)
    | none =>
      let (m, rest, progress) := m.stepProcesses rest
      (m, r :: rest, progress)

/-- A step for everybody: the task in front, then the jobs, then the processes. -/
def round (t : Task α) : Machine × Task α × Bool :=
  let (m, t, first) := match m.stepTask t with
    | some (m, t) => (m, t, true)
    | none => (m, t, false)
  let (m, jobs, second) := m.stepJobs m.jobs
  -- jobs that the steps of jobs have started stand behind those that took steps
  let m := { m with jobs := jobs ++ m.jobs.drop jobs.length }
  let known := m.running
  let (m, running, third) := { m with running := [] }.stepProcesses known
  ({ m with running := running ++ m.running }, t, first || second || third)

/-! ## The clock -/

def earliest (times : List (Option Nat)) : Option Nat :=
  times.foldl (fun a b => match a, b with
    | some a, some b => some (min a b)
    | a, b => a.or b) none

/-- The next time that somebody is waiting for. -/
def nextTime? (t : Task α) (limit : Option Nat) : Option Nat :=
  earliest (limit :: wakeTime? t :: m.jobs.map (fun j => wakeTime? j.task) ++
    m.running.map (·.until_))

inductive Outcome (α : Type) where
  | ended (value : α)
  /-- The time at which the task is abandoned has come. -/
  | abandoned (t : Task α)
  /-- Everybody waits for somebody else. -/
  | stuck (t : Task α)

/-- A file that interrupts the task in front some time after it appears. -/
structure Watch where
  path : String
  delay : Nat

def notice (watch : Option Watch) (t : Task α) : Task α :=
  match watch, t.cancelAt with
  | some w, none =>
    if m.files.exists? m.cwd w.path then
      { t with cancelAt := some (m.now + w.delay) }
    else t
  | _, _ => t

/-- Run until the task in front has ended or is abandoned, for at most `fuel` rounds. -/
def runTask (watch : Option Watch) (limit : Option Nat) :
    Nat → Machine → Task α → Machine × Outcome α
  | 0, m, t => (m, .stuck t)
  | fuel + 1, m, t =>
    let t := m.notice watch t
    match t.phase with
    | .ended a => (m, .ended a)
    | _ =>
      if limit.any (· ≤ m.now) then (m, .abandoned t)
      else
        let (m, t, progress) := m.round t
        if progress then runTask watch limit fuel m t
        else match m.nextTime? t limit with
          | none => (m, .stuck t)
          | some time =>
            let now := max (m.now + 1) time
            runTask watch limit fuel { m with kernel := { m.kernel with now } } t

/-- More rounds than any run takes. -/
def maxRounds : Nat := 1000000000

/-- Run a program in front. -/
def run (p : Program α) (cancelAt : Option Nat := none) (limit : Option Nat := none)
    (watch : Option Watch := none) : Machine × Outcome α :=
  m.runTask watch limit maxRounds (.ofProgram p cancelAt)

/-! ## Ends -/

/-- Run a program none of whose calls waits. -/
def runNow (m : Machine) : Program α → Machine × Option α
  | .done a => (m, some a)
  | .call c next =>
    match m.answer? c with
    | some (m, r) => m.runNow (next r)
    | none => (m, none)

/-- Abandon a task: kill its command and pay its debts, the latest first. -/
def abandon (t : Task α) : Machine :=
  let m := match t.phase with
    | .running child _ => m.reap child
    | _ => m
  t.debts.foldl (fun m debt => (m.runNow debt.pay).1) m

/-- A program that ends when all jobs have. -/
def isIdle : Bool :=
  m.jobs.all fun j => match j.task.phase with | .ended _ => true | _ => false

/-- Let the jobs come to their ends. -/
def settleJobs : Nat → Machine → Machine
  | 0, m => m
  | fuel + 1, m =>
    if m.isIdle then m
    else
      let idle : Task Unit := { phase := .ended () }
      let (m, t, progress) := m.round idle
      if progress then settleJobs fuel m
      else match m.nextTime? t none with
        | none => m
        | some time =>
          settleJobs fuel
            { m with kernel := { m.kernel with now := max (m.now + 1) time } }

def settle : Machine := settleJobs maxRounds m

/-- Stop everything that is still under way. -/
def shutDown : Machine :=
  let m := m.jobs.foldl (fun m j => m.abandon j.task) m
  { m with jobs := [] }

end Machine

end Foundry
