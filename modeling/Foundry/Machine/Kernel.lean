import Foundry.Files.Tree
import Foundry.Glob
import Foundry.Text.Hex
import Foundry.Time.Stamp

/-!
# The kernel of the model machine

Files, a clock, open streams, pipes, locks and the table of processes. Everything
that tasks and processes share is here; what they do next is not.
-/

namespace Foundry

inductive Ending where
  | exited (code : Nat)
  | killed (signal : Nat)
deriving DecidableEq, Repr, Inhabited

/-- An open stream. Processes that share it share its position. -/
inductive Stream where
  | null
  | zeros
  /-- Takes nothing. -/
  | full
  | file (id position : Nat) (appending : Bool)
  | pipe (number : Nat) (writing : Bool)
deriving DecidableEq, Repr, Inhabited

structure ProcessEntry where
  parent : Nat
  group : Nat
  /-- The streams it keeps open. -/
  holds : List Nat
  ending : Option Ending := none
  /-- Signals that do nothing to it. -/
  ignored : List Nat := []
  /-- Signals that wait for it instead of ending it. -/
  caught : List Nat := []
  pending : List Nat := []
deriving DecidableEq, Repr, Inhabited

structure Kernel where
  files : Files := {}
  /-- Nanoseconds since the machine started. -/
  now : Nat := 0
  cwd : Place := []
  ownPid : Nat := 4711
  streams : List (Nat × Stream) := []
  pipes : List (Nat × ByteArray) := []
  processes : List (Nat × ProcessEntry) := []
  /-- Open lock files: the file's number, or none for a device. -/
  handles : List (Nat × Option Nat) := []
  /-- Which handle holds the lock on a file. -/
  locks : List (Nat × Nat) := []
  /-- The next number for a stream, pipe, handle or identifier. -/
  fresh : Nat := 1
deriving Inhabited

namespace Kernel

def epoch : Stamp := ⟨1788000000, 123456789⟩

variable (k : Kernel)

def today : Stamp := epoch.after k.now

/-- A machine on which only the service runs. -/
def boot (ownPid : Nat) (files : Files) (cwd : Place) : Kernel :=
  { files, cwd, ownPid
    processes := [(ownPid, { parent := 1, group := ownPid, holds := [] })] }

def tick (nanos : Nat) : Kernel := { k with now := k.now + nanos }

def takeFresh : Nat × Kernel := (k.fresh, { k with fresh := k.fresh + 1 })

/-- An identifier of 32 hexadecimal digits. Multiplying by an odd number mixes the digits and
keeps different numbers different. -/
def freshId : String × Kernel :=
  let (n, k) := k.takeFresh
  let mixed := n * 0x9E3779B97F4A7C15F39CC0605CEDC835 % 0x100000000000000000000000000000000
  let digits := Nat.toDigits 16 mixed
  (String.ofList (List.replicate (32 - digits.length) '0' ++ digits), k)

/-! ## Locks -/

def openLock (path : String) : Except Cause (Nat × Kernel) := do
  let (files, _, node) ← k.files.openForWriting k.cwd path
  let (h, k) := { k with files }.takeFresh
  let id := match node with | .file id _ _ => some id | _ => none
  .ok (h, { k with handles := (h, id) :: k.handles })

def fileOf (handle : Nat) : Option Nat := (k.handles.lookup handle).getD none

/-- Take the lock, unless another handle has it. Devices are never locked. -/
def tryLock (handle : Nat) : Option Kernel :=
  match k.fileOf handle with
  | none => some k
  | some id =>
    match k.locks.lookup id with
    | some _ => none
    | none => some { k with locks := (id, handle) :: k.locks }

/-- Replace the contents of a lock file. A device cannot be cut. -/
def markLock (handle : Nat) (bytes : ByteArray) : Except Cause Kernel :=
  match k.fileOf handle with
  | none => .error .invalidArgument
  | some id => .ok { k with files := k.files.editId id fun _ => bytes }

def closeLock (handle : Nat) : Kernel :=
  { k with
    handles := k.handles.filter fun h => h.1 ≠ handle
    locks := k.locks.filter fun l => l.2 ≠ handle }

/-! ## Streams -/

def addStream (s : Stream) : Nat × Kernel :=
  let (n, k) := k.takeFresh
  (n, { k with streams := (n, s) :: k.streams })

def setStream (n : Nat) (s : Stream) : Kernel :=
  { k with streams := k.streams.map fun e => if e.1 = n then (n, s) else e }

/-- A new pipe: its reading and its writing end. -/
def makePipe : Nat × Nat × Kernel :=
  let (p, k) := k.takeFresh
  let k := { k with pipes := (p, .empty) :: k.pipes }
  let (r, k) := k.addStream (.pipe p false)
  let (w, k) := k.addStream (.pipe p true)
  (r, w, k)

/-- A stream that has a text to read and then ends. -/
def addText (bytes : ByteArray) : Nat × Kernel :=
  let (p, k) := k.takeFresh
  { k with pipes := (p, bytes) :: k.pipes }.addStream (.pipe p false)

def isRunning (pid : Nat) : Bool :=
  match k.processes.lookup pid with
  | some p => p.ending.isNone
  | none => false

/-- Whether some running process keeps an end of a pipe open. -/
def pipeIsOpen (pipe : Nat) (writing : Bool) : Bool :=
  k.processes.any fun p =>
    p.2.ending.isNone && p.2.holds.any fun n => k.streams.lookup n == some (.pipe pipe writing)

def openReading (cwd : Place) (path : String) : Except Cause (Nat × Kernel) := do
  let (_, node) ← k.files.find cwd true path
  match node with
  | .file id _ _ => .ok (k.addStream (.file id 0 false))
  | .dir _ => .error .isDirectory
  | .device .null => .ok (k.addStream .null)
  | .device _ => .ok (k.addStream .zeros)
  | _ => .ok (k.addStream .null)

/-- Open a file for writing, from its start or at its end. -/
def openWriting (cwd : Place) (path : String) (appending : Bool) : Except Cause (Nat × Kernel) := do
  let (files, _, node) ← k.files.openForWriting cwd path
  let k := { k with files }
  match node with
  | .file id _ _ =>
    let files := if appending then k.files else k.files.editId id fun _ => .empty
    .ok ({ k with files }.addStream (.file id 0 appending))
  | .device .full => .ok (k.addStream .full)
  | .device _ => .ok (k.addStream .null)
  | _ => .error (.os 26)

/-- Bytes with others written over them from a position on. -/
def overwrite (bytes : ByteArray) (position : Nat) (more : ByteArray) : ByteArray :=
  let gap : ByteArray := ⟨Array.replicate (position - bytes.size) 0⟩
  bytes.extract 0 position ++ gap ++ more ++ bytes.extract (position + more.size) bytes.size

/-- Write to a stream. A pipe that nobody reads refuses. -/
def write (stream : Nat) (bytes : ByteArray) : Except Cause Kernel :=
  match k.streams.lookup stream with
  | none => .error (.os 9)
  | some .null | some .zeros => .ok k
  | some .full => .error .noSpace
  | some (.file id position appending) =>
    if appending then .ok { k with files := k.files.editId id (· ++ bytes) }
    else
      let k := { k with files := k.files.editId id fun old => overwrite old position bytes }
      .ok (k.setStream stream (.file id (position + bytes.size) false))
  | some (.pipe p true) =>
    if k.pipeIsOpen p false then
      .ok { k with pipes := k.pipes.map fun e => if e.1 = p then (p, e.2 ++ bytes) else e }
    else .error (.os 32)
  | some (.pipe _ false) => .error (.os 9)

/-- How much a pipe takes before those who write to it have to wait. -/
def pipeCapacity : Nat := 65536

/-- Whether one has to wait before writing to a stream. The service itself reads all the time. -/
def isFull (stream : Nat) : Bool :=
  match k.streams.lookup stream with
  | some (.pipe p true) =>
    let isRead := fun (e : ProcessEntry) =>
      e.ending.isNone && e.holds.any fun n => k.streams.lookup n == some (.pipe p false)
    pipeCapacity ≤ ((k.pipes.lookup p).getD .empty).size && k.pipeIsOpen p false &&
      !(k.processes.lookup k.ownPid).any isRead
  | _ => false

/-- What a stream has to read, none if one has to wait. Nothing at all means its end. -/
def peek (stream : Nat) : Option ByteArray :=
  match k.streams.lookup stream with
  | some .zeros => some ⟨Array.replicate 4096 0⟩
  | some (.file id position _) =>
    let bytes := (k.files.contents? id).getD .empty
    some (bytes.extract position bytes.size)
  | some (.pipe p false) =>
    let bytes := (k.pipes.lookup p).getD .empty
    if bytes.isEmpty && k.pipeIsOpen p true then none else some bytes
  | _ => some .empty

/-- Take bytes that have been read off a stream. -/
def advance (stream count : Nat) : Kernel :=
  match k.streams.lookup stream with
  | some (.file id position appending) => k.setStream stream (.file id (position + count) appending)
  | some (.pipe p false) =>
    { k with pipes := k.pipes.map fun e =>
        if e.1 = p then (p, e.2.extract count e.2.size) else e }
  | _ => k

/-! ## Processes -/

def setProcess (pid : Nat) (f : ProcessEntry → ProcessEntry) : Kernel :=
  { k with processes := k.processes.map fun p => if p.1 = pid then (pid, f p.2) else p }

/-- End a process; its streams are let go with it. -/
def endProcess (pid : Nat) (ending : Ending) : Kernel :=
  k.setProcess pid fun p => if p.ending.isNone then { p with ending := some ending, holds := [] }
    else p

/-- Enter a new process into the table. It ignores what its parent ignores. -/
def addProcess (parent : Nat) (group : Option Nat) (holds : List Nat) : Nat × Kernel :=
  let (n, k) := k.takeFresh
  let pid := k.ownPid + n
  let ignored := match k.processes.lookup parent with
    | some p => p.ignored
    | none => []
  let entry : ProcessEntry := { parent, group := group.getD pid, holds, ignored }
  (pid, { k with processes := (pid, entry) :: k.processes })

def close (pid stream : Nat) : Kernel :=
  k.setProcess pid fun p => { p with holds := p.holds.filter (· ≠ stream) }

/-- Strike a process that has ended off the table. -/
def forget (pid : Nat) : Kernel :=
  { k with processes := k.processes.filter fun p => p.1 ≠ pid }

/-- Keep exactly these streams open. -/
def holdOnly (pid : Nat) (streams : List Nat) : Kernel :=
  k.setProcess pid fun p => { p with holds := streams }

def hold (pid : Nat) (streams : List Nat) : Kernel :=
  k.setProcess pid fun p => { p with holds := streams ++ p.holds }

def sigKill : Nat := 9

/-- Signals that do nothing unless they are caught. -/
def harmless : List Nat := [17, 18, 23, 28]

def signal (pid number : Nat) : Kernel :=
  match k.processes.lookup pid with
  | none => k
  | some p =>
    if p.ending.isSome then k
    else if number = sigKill then k.endProcess pid (.killed number)
    else if p.caught.contains number then
      k.setProcess pid fun p => { p with pending := p.pending ++ [number] }
    else if p.ignored.contains number || harmless.contains number then k
    else k.endProcess pid (.killed number)

def signalGroup (group number : Nat) : Kernel :=
  (k.processes.filter fun p => p.2.group = group).foldl (fun k p => k.signal p.1 number) k

/-- Whether a signal could be sent to a process number: a positive one names a process, zero the
caller's group, minus one everybody, other negative numbers a group. -/
def canSignal (pid : Int) : Bool :=
  if 0 < pid then
    pid = 1 ∨ (k.processes.lookup pid.toNat).isSome
  else if pid = 0 ∨ pid = -1 then true
  else k.processes.any fun p => (p.2.group : Int) = -pid

end Kernel

end Foundry
