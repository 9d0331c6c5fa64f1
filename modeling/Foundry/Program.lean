import Foundry.Cause
import Foundry.Command
import Foundry.Fault
import Foundry.Text.Quoted
import Foundry.Time.Stamp

/-!
# Programs

What the service does, as a tree of calls to its surroundings: each call names what
is asked for, and the rest of the program depends on the reply. Nothing here says
what a call does. One program can therefore be run on a model machine, interleaved
with others call by call, or abandoned at a call.
-/

namespace Foundry

/-- What a task still owes to its surroundings. A task that ends in whatever way pays it. -/
inductive Debt where
  /-- A workspace is to be removed, with what was built for it elsewhere. -/
  | workspace (root : String) (artifacts : List String)
  /-- A held lock is to be cleared and let go. -/
  | lock (path : String) (handle : Nat)
deriving DecidableEq, Repr, Inhabited

inductive LockReply where
  | acquired
  | stillHeld
  | failed (cause : Cause)
deriving DecidableEq, Repr, Inhabited

inductive JobReply where
  | finished (result : Except Fault Bool)
  | expired
  | cancelled
deriving Inhabited

inductive Call where
  | readFile (path : String)
  | writeFile (path : String) (bytes : ByteArray)
  | appendFile (path : String) (bytes : ByteArray)
  | makeDir (path : String)
  | makeDirs (path : String)
  | removeFile (path : String)
  | removeTree (path : String)
  | rename (source target : String)
  | listDir (path : String)
  | fileSize (path : String)
  | isFile (path : String)
  | pathExists (path : String)
  /-- Leave access to the owner alone. -/
  | restrict (path : String)
  /-- Remove what matches a pattern; gives what went wrong. -/
  | sweep (pattern : String)
  /-- Nanoseconds since some fixed moment. -/
  | clock
  | today
  /-- A fresh identifier of 32 hexadecimal digits. -/
  | freshId
  | ownPid
  | isAlive (pid : Int)
  | openLock (path : String)
  | lock (handle : Nat) (wait : Duration)
  /-- Replace the contents of a lock file that is open. -/
  | markLock (handle : Nat) (bytes : ByteArray)
  | closeLock (handle : Nat)
  /-- Run a command until it ends, its time is up or the task is cancelled. -/
  | run (command : Command) (timeout : Duration)
  | startJob
  /-- Wait for a job until a time of the clock, or until the task is cancelled. -/
  | awaitJob (job : Nat) (deadline : Nat)
  | record (operation : String) (elapsed : Duration)
  | warn (message : String) (fields : List (String × String))
  | owe (debt : Debt)
  /-- Forget the latest debt. -/
  | settle
  | listen (address : String)
  | awaitInterrupt
deriving Inhabited

@[reducible] def Call.Reply : Call → Type
  | .readFile _ => Except Cause ByteArray
  | .writeFile .. | .appendFile .. | .makeDir _ | .makeDirs _ | .removeFile _ | .removeTree _
  | .rename .. | .restrict _ | .markLock .. | .listen _ => Except Cause Unit
  | .listDir _ => Except Cause (List String)
  | .fileSize _ => Except Cause Nat
  | .isFile _ | .pathExists _ | .isAlive _ => Bool
  | .sweep _ => List String
  | .clock | .ownPid | .startJob => Nat
  | .today => Stamp
  | .freshId => String
  | .openLock _ => Except Cause Nat
  | .lock .. => LockReply
  | .run .. => Except Fault CommandResult
  | .awaitJob .. => JobReply
  | .closeLock _ | .record .. | .warn .. | .owe _ | .settle | .awaitInterrupt => Unit

/-- Whether a task can be abandoned at this call. The others happen without a pause. -/
def Call.pauses : Call → Bool
  | .isFile _ | .pathExists _ | .sweep _ | .clock | .today | .freshId | .ownPid | .isAlive _
  | .markLock .. | .closeLock _ | .startJob | .record .. | .warn .. | .owe _ | .settle => false
  | _ => true

inductive Program (α : Type) where
  | done (value : α)
  | call (c : Call) (next : c.Reply → Program α)

namespace Program

variable {α β γ : Type}

def bind (p : Program α) (f : α → Program β) : Program β :=
  match p with
  | .done a => f a
  | .call c next => .call c fun r => (next r).bind f

instance : Monad Program where
  pure := .done
  bind := bind

@[simp] theorem pure_eq (a : α) : (pure a : Program α) = .done a := rfl

@[simp] theorem bind_done (a : α) (f : α → Program β) : (Program.done a >>= f) = f a := rfl

@[simp] theorem bind_call (c : Call) (next : c.Reply → Program α) (f : α → Program β) :
    (Program.call c next >>= f) = .call c fun r => next r >>= f := rfl

theorem bind_pure (p : Program α) : p >>= pure = p := by
  induction p with
  | done a => rfl
  | call c next ih => exact congrArg (Program.call c) (funext ih)

theorem bind_assoc (p : Program α) (f : α → Program β) (g : β → Program γ) :
    p >>= f >>= g = p >>= fun a => f a >>= g := by
  induction p with
  | done a => rfl
  | call c next ih => exact congrArg (Program.call c) (funext ih)

instance : LawfulMonad Program :=
  LawfulMonad.mk' Program (fun p => bind_pure p) (fun _ _ => rfl) bind_assoc

def ask (c : Call) : Program c.Reply := .call c .done

end Program

open Program

def readFile (path : String) : Program (Except Cause ByteArray) := ask (.readFile path)

def readTextFile (path : String) : Program (Except Cause String) := do
  match ← readFile path with
  | .error e => return .error e
  | .ok bytes =>
    match String.fromUTF8? bytes with
    | some text => return .ok text
    | none => return .error .notText

/-- A program that can end in a fault. -/
abbrev Action (α : Type) := ExceptT Fault Program α

/-- The outcome of a program that can end in a fault, as a value. -/
def attempt {α : Type} (p : Action α) : Action (Except Fault α) := ExceptT.lift p.run

def execute (command : Command) (timeout : Duration) : Action CommandResult :=
  ExceptT.mk (ask (.run command timeout))

/-- An operation whose failure is a fault. -/
def orFail {α : Type} (fault : Cause → Fault) (p : Program (Except Cause α)) : Action α :=
  ExceptT.mk do
    match ← p with
    | .ok a => return .ok a
    | .error e => return .error (fault e)

/-- A file operation whose failure is a fault in a given context. -/
def orFault {α : Type} (context : String) (p : Program (Except Cause α)) : Action α :=
  orFail (.files context) p

/-- Whether a failure says that there is nothing at a path. -/
def isMissing (e : Cause) : Bool := e == .notFound

/-- A value that is usable in any case, and what went wrong on the way to it. -/
structure Advised (α : Type) where
  value : α
  warning : Option String := none
deriving Inhabited

/-- Report the warning and keep the value. -/
def Advised.settle {α : Type} (a : Advised α) (operation : String) : Program α := do
  match a.warning with
  | some warning => ask (.warn warning [("operation", Text.debugQuote operation)])
  | none => pure ()
  return a.value

def joinWarnings : Option String → Option String → Option String
  | some a, some b => some (a ++ "; " ++ b)
  | a, b => a.or b

end Foundry
