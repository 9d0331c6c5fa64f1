import Foundry.Command
import Foundry.Fault
import Foundry.Machine.Process
import Foundry.Program

/-!
# Runners

A runner answers the commands of a service: by a script of reactions, stage by
stage, or by processes on the machine.
-/

namespace Foundry

variable (fs : Files) (cwd : Place) (path : String)

inductive Content where
  | bytes (bytes : ByteArray)
  | link (target : String)
  | dir
deriving Inhabited

namespace Files

/-- Put something at a path, with the directories above it. -/
def install (content : Content) : Files :=
  let fs := match Path.parent? path with
    | some dir => (fs.makeDirs cwd dir).1
    | none => fs
  match content with
  | .bytes bytes => (fs.write cwd path bytes).toOption.getD fs
  | .link target => (fs.makeLink cwd target path).toOption.getD fs
  | .dir => (fs.makeDirs cwd path).1

def uninstall : Files :=
  match fs.removeTree cwd path with
  | (fs, .ok _) => fs
  | (fs, .error _) => (fs.removeFile cwd path).toOption.getD fs

/-- What a path leads to with all below it, as places relative to it. None if it is no directory. -/
def snapshot : Option (List (Place × Node)) :=
  match fs.find cwd true path with
  | .ok (p, .dir _) => some (fs.below p)
  | _ => none

end Files

/-- How a scripted runner reacts to a call. -/
structure Reaction where
  writes : List (String × Content) := []
  removes : List String := []
  rest : Duration := .zero
  outcome : Except Fault CommandResult

/-- A reaction that may depend on the command and the time it is given. -/
abbrev Scripted := Command → Duration → Reaction

inductive Runner where
  /-- For each stage the reactions still to come. -/
  | scripted (reactions : List (String × List Scripted))
  | processes

structure RunnerCall where
  command : Command
  timeout : Duration
  /-- The files of the command's directory before it ran. -/
  files : List (Place × Node)

/-- Take the next reaction of a stage. A stage without reactions succeeds silently. -/
def takeReaction (reactions : List (String × List Scripted)) (stage : String) :
    Scripted × List (String × List Scripted) :=
  match reactions with
  | [] => (fun _ _ => { outcome := .ok ⟨0, .empty, .empty⟩ }, [])
  | (name, queue) :: rest =>
    if name = stage then
      match queue with
      | [] => (fun _ _ => { outcome := .ok ⟨0, .empty, .empty⟩ }, reactions)
      | r :: queue => (r, (name, queue) :: rest)
    else
      let (r, rest) := takeReaction rest stage
      (r, (name, queue) :: rest)

/-- Do to the files what a reaction says, from the command's directory. -/
def Reaction.apply (r : Reaction) (fs : Files) (cwd : Place) (dir : String) : Files :=
  let fs := r.writes.foldl (fun fs w => fs.install cwd (Path.join dir w.1) w.2) fs
  r.removes.foldl (fun fs p => fs.uninstall cwd (Path.join dir p)) fs

end Foundry
