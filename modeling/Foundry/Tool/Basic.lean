import Foundry.Machine.Process
import Foundry.Text.Bytes

/-!
# Tools

A tool is a program that processes can run: it has arguments, an environment, a
working directory and open streams, and ends with a code. All texts are texts of bytes,
except that paths are decoded before they are looked up.
-/

namespace Foundry

structure Invocation where
  name : String
  args : List String := []
  environment : List (String × String) := []
  /-- The working directory, from the root on. -/
  dir : String := "/"
  streams : List (Nat × Nat) := []
deriving Inhabited

abbrev Tool := Invocation → Piece Nat

namespace Invocation

def cwd (i : Invocation) : Place := Path.names (Text.fromBytes i.dir)

/-- Streams that are open, each once. -/
def holds (i : Invocation) : List Nat := i.streams.map (·.2) |>.eraseDups

end Invocation

/-- The signal for writing to a pipe that nobody reads. -/
def sigPipe : Nat := 13

/-- Write a text of bytes to a stream, once there is room in it. Writing to a pipe that nobody
reads ends the process. -/
def writeText (streams : List (Nat × Nat)) (number : Nat) (text : String) : Piece Bool :=
  match streams.lookup number with
  | none => pure false
  | some stream =>
    if text.isEmpty then pure true
    else
      Piece.await fun pid kernel =>
        if kernel.isFull stream then none
        else match kernel.write stream (Text.toBytes text) with
          | .ok kernel => some (kernel, true)
          | .error e => some (if e = .os 32 then kernel.signal pid sigPipe else kernel, false)

namespace Invocation

variable (path : String)

variable (i : Invocation)

def print (text : String) : Piece Unit := do
  let _ ← writeText i.streams 1 text

def complain (message : String) : Piece Unit := do
  let _ ← writeText i.streams 2 (s!"{i.name}: {message}\n")

def readInput : Piece String :=
  match i.streams.lookup 0 with
  | none => pure ""
  | some stream => do
    return Text.ofBytes (← Piece.readAll Piece.maxPieces stream)

/-- The number of the stream that a path names for whoever opens it. -/
def ownStream? : Option Nat :=
  [("/dev/stdin", 0), ("/dev/stdout", 1), ("/dev/stderr", 2), ("/dev/fd/0", 0), ("/dev/fd/1", 1),
   ("/dev/fd/2", 2)].lookup path

/-- The stream of a file. A dash stands for the standard input. -/
def openInput : Piece (Except Cause Nat) :=
  match if path = "-" then some 0 else ownStream? path with
  | some n =>
    match i.streams.lookup n with
    | some stream => pure (.ok stream)
    | none => pure (.error (.os 9))
  | none =>
    Piece.act fun _ kernel =>
      match kernel.openReading i.cwd (Text.fromBytes path) with
      | .ok (stream, kernel) => (kernel, .ok stream)
      | .error e => (kernel, .error e)

/-- What a file holds, or why it cannot be read. A dash stands for the standard input. -/
def readFile : Piece (Except Cause String) := do
  if path = "-" then return .ok (← i.readInput)
  else
    Piece.see fun kernel => (kernel.files.read i.cwd (Text.fromBytes path)).map Text.ofBytes

/-- A system error without its number. -/
def reason (e : Cause) : String :=
  match e.message.splitOn " (os error" with
  | text :: _ => text
  | [] => e.message

end Invocation

end Foundry
