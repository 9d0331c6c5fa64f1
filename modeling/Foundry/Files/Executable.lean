import Foundry.Files.Tree

/-!
# Executable files

What the system does with a file that is to be executed: it is an installed program,
or a script that names its interpreter, or nothing that can be run.
-/

namespace Foundry

inductive Executable where
  | program (name : String)
  /-- The interpreter, perhaps an argument for it, and the script. -/
  | script (interpreter : String) (option : Option String) (path : String)
deriving DecidableEq, Repr, Inhabited

namespace Files

def permissionDenied : Cause := .os 13

/-- Neither a program nor a script that names its interpreter. -/
def notExecutable : Cause := .os 8

/-- The interpreter named in the first line of a script. -/
def interpreter? (bytes : ByteArray) : Option (String × Option String) :=
  let line := (bytes.toList.takeWhile (· ≠ 10)).map fun b => Char.ofNat b.toNat
  let isBlank := fun (c : Char) => c == ' ' || c == '\t'
  match line with
  | '#' :: '!' :: rest =>
    let rest := ((rest.dropWhile isBlank).reverse.dropWhile isBlank).reverse
    let name := rest.takeWhile fun c => !isBlank c
    let option := (rest.drop name.length).dropWhile isBlank
    if name.isEmpty then none
    else some (String.ofList name, if option.isEmpty then none else some (String.ofList option))
  | _ => none

def mayExecute : Node → Bool
  | .program _ => true
  | .file _ _ mode => mode &&& 0o111 ≠ 0
  | _ => false

/-- What executing a path would run. The interpreter of a script has to be there, too. -/
def executable (fs : Files) (cwd : Place) (path : String) : Except Cause Executable := do
  let (_, node) ← fs.find cwd true path
  if !mayExecute node then .error permissionDenied
  else match node with
    | .program name => .ok (.program name)
    | .file _ bytes _ =>
      match interpreter? bytes with
      | some (name, option) => do
        let (_, interpreter) ← fs.find cwd true name
        if mayExecute interpreter then .ok (.script name option path)
        else .error permissionDenied
      | none => .error notExecutable
    | _ => .error permissionDenied

/-- Where a name without slashes is looked for. An empty entry is the working directory. -/
def searchPaths (path name : String) : List String :=
  (path.splitOn ":").map fun dir => if dir.isEmpty then name else Path.join dir name

/-- The first of some paths that can be executed. A path that is there but refuses is what is
complained about, if there is none. -/
def firstExecutable (fs : Files) (cwd : Place) : List String → Except Cause (String × Executable)
  | [] => .error .notFound
  | path :: rest =>
    match fs.executable cwd path with
    | .ok e => .ok (path, e)
    | .error e =>
      match fs.firstExecutable cwd rest with
      | .ok found => .ok found
      | .error later => .error (if e = permissionDenied || e = notExecutable then e else later)

end Files

end Foundry
