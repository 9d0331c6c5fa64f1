import Foundry.Machine.Kernel

/-!
# Processes

What a process does, as a tree of steps on the kernel. A step happens at once, or
waits until it can happen. A process that forks goes on beside its child.
-/

namespace Foundry

inductive Process where
  | exit (code : Nat)
  /-- A step at once. It sees the process's own number. -/
  | act (step : Nat → Kernel → Kernel × Process)
  /-- A step as soon as it can happen. -/
  | await (step : Nat → Kernel → Option (Kernel × Process))
  | sleep (nanos : Nat) (next : Process)
  /-- Start a child that keeps the given streams open. -/
  | fork (holds : List Nat) (child : Process) (next : Nat → Process)

instance : Inhabited Process := ⟨.exit 0⟩

/-- A piece of a process that ends in a value. -/
def Piece (α : Type) := (α → Process) → Process

namespace Piece

variable {α β : Type}

instance : Monad Piece where
  pure a := fun k => k a
  bind p f := fun k => p fun a => f a k

def exit (code : Nat) : Piece α := fun _ => .exit code

def act (step : Nat → Kernel → Kernel × α) : Piece α := fun k =>
  .act fun pid kernel =>
    let (kernel, a) := step pid kernel
    (kernel, k a)

def await (step : Nat → Kernel → Option (Kernel × α)) : Piece α := fun k =>
  .await fun pid kernel => (step pid kernel).map fun r => (r.1, k r.2)

def sleep (nanos : Nat) : Piece Unit := fun k => .sleep nanos (k ())

def fork (holds : List Nat) (child : Process) : Piece Nat := fun k => .fork holds child k

def ownPid : Piece Nat := act fun pid kernel => (kernel, pid)

def see (f : Kernel → α) : Piece α := act fun _ kernel => (kernel, f kernel)

def change (f : Nat → Kernel → Except Cause Kernel) : Piece (Except Cause Unit) :=
  act fun pid kernel =>
    match f pid kernel with
    | .ok kernel => (kernel, .ok ())
    | .error e => (kernel, .error e)

def changeFiles (f : Files → Except Cause Files) : Piece (Except Cause Unit) :=
  change fun _ kernel => (f kernel.files).map fun files => { kernel with files }

def waitFor (pid : Nat) : Piece Ending :=
  await fun _ kernel =>
    match kernel.processes.lookup pid with
    | some p => p.ending.map fun e => (kernel.forget pid, e)
    | none => some (kernel, .exited 127)

/-- Everything up to the end of a stream, which must be ready. -/
def readReady (stream : Nat) : Piece ByteArray :=
  await fun _ kernel => (kernel.peek stream).map fun bytes =>
    (kernel.advance stream bytes.size, bytes)

/-- More pieces than any stream comes in. -/
def maxPieces : Nat := 1000000000

/-- Pieces of a stream until they are enough or the stream ends. -/
def readUntil (enough : ByteArray → Bool) : Nat → Nat → ByteArray → Piece ByteArray
  | 0, _, bytes => pure bytes
  | fuel + 1, stream, bytes => do
    if enough bytes then return bytes
    let more ← readReady stream
    if more.isEmpty then return bytes
    else readUntil enough fuel stream (bytes ++ more)

/-- Everything up to the end of a stream. A pipe is read until nobody writes to it; `fuel` bounds
the number of pieces. -/
def readAll : Nat → Nat → Piece ByteArray
  | 0, _ => pure .empty
  | fuel + 1, stream => do
    let bytes ← readReady stream
    if bytes.isEmpty then return bytes
    else return bytes ++ (← readAll fuel stream)

end Piece

def Ending.status : Ending → Nat
  | .exited code => code
  | .killed signal => 128 + signal

end Foundry
