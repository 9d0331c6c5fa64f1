import Foundry.Machine.Process
import Foundry.Shell.Grammar
import Foundry.Shell.Pattern
import Foundry.Tool.Basic

/-!
# The state of a shell

What a shell knows, and steps that change it. A step may end early: the shell exits, a
function returns, or a loop is left.
-/

namespace Foundry

namespace Shell

structure Variable where
  value : String
  exported : Bool := false
  isReadOnly : Bool := false
deriving DecidableEq, Repr, Inhabited

inductive Jump where
  | exit (code : Nat)
  /-- A mistake that has been complained about. -/
  | failed
  | leave (code : Nat)
  | stop (levels : Nat)
  | again (levels : Nat)
deriving DecidableEq, Repr, Inhabited

structure State where
  /-- What the shell calls itself in messages. -/
  name : String := "sh"
  /-- Who else is named in messages: the builtin or the file under way. -/
  caller : String := ""
  args : List String := []
  vars : List (String × Variable) := []
  functions : List (String × Tree) := []
  dir : String := "/"
  streams : List (Nat × Nat) := []
  status : Nat := 0
  /-- The status of the latest substituted command. -/
  substituted : Nat := 0
  /-- The process number of the first shell. -/
  pid : Nat := 0
  lastJob : Option Nat := none
  /-- Background processes that nobody has waited for. -/
  jobs : List Nat := []
  /-- Actions by signal; zero stands for the exit. An empty action ignores the signal. -/
  traps : List (Nat × String) := []
  flags : List Char := []
  line : Nat := 1
  loops : Nat := 0
  /-- What local variables hide, function by function. -/
  hidden : List (List (String × Option Variable)) := []
deriving Inhabited

namespace State

variable (s : State)

def hasFlag (c : Char) : Bool := s.flags.contains c

def value? (name : String) : Option String := (s.vars.lookup name).map (·.value)

def setVariable (name : String) (v : Option Variable) : State :=
  let others := s.vars.filter fun e => e.1 ≠ name
  match v with
  | some v => { s with vars := others ++ [(name, v)] }
  | none => { s with vars := others }

def environment : List (String × String) :=
  s.vars.filterMap fun e => if e.2.exported then some (e.1, e.2.value) else none

def separators : List Char := ((s.value? "IFS").getD " \t\n").toList

def cwd : Place := Path.names (Text.fromBytes s.dir)

def holds : List Nat := (s.streams.map (·.2)).eraseDups

/-- Whether something is to happen on a signal or at the exit. -/
def hasTraps : Bool := s.traps.any fun t => t.2 ≠ ""

def invocation (name : String) (args : List String) : Invocation :=
  { name, args, environment := s.environment, dir := s.dir, streams := s.streams }

end State

abbrev Eval := ExceptT Jump (StateT State Piece)

variable {α : Type}

def perform (p : Piece α) : Eval α := ExceptT.lift (StateT.lift p)

/-- The outcome of a step, early ends included. -/
def outcome (p : Eval α) : Eval (Except Jump α) := ExceptT.lift p.run

def resume (r : Except Jump α) : Eval α := ExceptT.mk (pure r)

def emit (number : Nat) (text : String) : Eval Unit := do
  let s ← get
  let _ ← perform (writeText s.streams number text)

/-- Say on the standard error what is wrong, and in which line. -/
def complain (message : String) : Eval Unit := do
  let s ← get
  emit 2 s!"{s.name}: {s.line}: {s.caller}{message}\n"

/-- Complain and give up. -/
def giveUp (message : String) : Eval α := do
  complain message
  throw .failed

/-- Complain and go on. -/
def refuse (message : String) : Eval Nat := do
  complain message
  return 2

/-- Run with somebody else named in messages. -/
def calledBy (caller : String) (p : Eval α) : Eval α := do
  let old := (← get).caller
  modify fun s => { s with caller := caller ++ ": " }
  let r ← outcome p
  modify fun s => { s with caller := old }
  resume r

def see (f : Kernel → α) : Eval α := perform (Piece.see f)

def setStatus (code : Nat) : Eval Nat := do
  modify fun s => { s with status := code }
  return code

def assign (name value : String) : Eval Unit := do
  let s ← get
  match s.vars.lookup name with
  | some v =>
    if v.isReadOnly then giveUp s!"{name}: is read only"
    else set (s.setVariable name (some { v with value }))
  | none => set (s.setVariable name (some { value, exported := s.hasFlag 'a' }))

/-! ## Fields -/

inductive Atom where
  | char (c : Char) (isLiteral splits : Bool)
  /-- The end of one argument of many. -/
  | gap
  /-- Something that makes a field even if it is empty. -/
  | mark
deriving DecidableEq, Repr, Inhabited

def atomsOf (isQuoted splits : Bool) (text : String) : List Atom :=
  if isQuoted then .mark :: text.toList.map fun c => .char c true false
  else text.toList.map fun c => .char c false splits

def glyphsOf (atoms : List Atom) : List Glyph :=
  atoms.filterMap fun a => match a with
    | .char c isLiteral _ => some (c, isLiteral)
    | .gap => some (' ', true)
    | .mark => none

def textOf (gs : List Glyph) : String := String.ofList (gs.map (·.1))

/-- Where splitting has come to. -/
structure Splitting where
  fields : List (List Glyph) := []
  /-- The field under way, the latest first. -/
  current : List Glyph := []
  isOpen : Bool := false
  /-- The last field was ended by a blank. -/
  afterBlank : Bool := false

def Splitting.close (s : Splitting) : Splitting :=
  { s with fields := s.current.reverse :: s.fields, current := [], isOpen := false }

def Splitting.closeIfOpen (s : Splitting) : Splitting := if s.isOpen then s.close else s

def isBlank (c : Char) : Bool := c == ' ' || c == '\t' || c == '\n'

/-- Divide atoms into fields. Blanks between fields say nothing more; other separators end a
field each. -/
def Splitting.add (separators : List Char) (s : Splitting) : Atom → Splitting
  | .gap => { s.closeIfOpen with afterBlank := false }
  | .mark => { s with isOpen := true, afterBlank := false }
  | .char c isLiteral splits =>
    if splits && separators.contains c then
      if isBlank c then
        if s.isOpen then { s.close with afterBlank := true } else s
      else if s.isOpen then { s.close with afterBlank := false }
      else if s.afterBlank then { s with afterBlank := false }
      else { s.close with afterBlank := false }
    else { s with current := (c, isLiteral) :: s.current, isOpen := true, afterBlank := false }

def fieldsOf (separators : List Char) (atoms : List Atom) : List (List Glyph) :=
  (atoms.foldl (Splitting.add separators) {}).closeIfOpen.fields.reverse

/-! ## Names of files -/

/-- The parts of a pattern between slashes. -/
def components (gs : List Glyph) : List (List Glyph) :=
  gs.foldr (fun g parts =>
    if g.1 == '/' then [] :: parts
    else match parts with
      | part :: rest => (g :: part) :: rest
      | [] => [[g]]) [[]]

/-- The paths that the remaining components of a pattern lead to from a path. -/
def pathsFrom (files : Files) (cwd : Place) : List (List Glyph) → String → List String
  | [], _ => []
  | part :: rest, path =>
    let step := fun (name : String) =>
      let here := path ++ name
      if rest.isEmpty then if files.exists? cwd (Text.fromBytes here) then [here] else []
      else pathsFrom files cwd rest (here ++ "/")
    if Pattern.isActive part then
      let items := Pattern.ofGlyphs part
      let showsHidden := part.head?.any fun g => g.1 == '.'
      let names := match files.list cwd (Text.fromBytes (if path.isEmpty then "." else path)) with
        | .ok names => (names.map Text.asBytes).mergeSort (· ≤ ·)
        | .error _ => []
      (names.filter fun n =>
        (showsHidden || !n.startsWith ".") && Pattern.describes items n.toList).flatMap step
    else step (textOf part)

/-- The paths that a field stands for: itself, if it leads to none. -/
def pathsOf (files : Files) (cwd : Place) (gs : List Glyph) : List String :=
  if Pattern.isActive gs then
    match pathsFrom files cwd (components gs) "" with
    | [] => [textOf gs]
    | paths => paths
  else [textOf gs]

end Shell

end Foundry
