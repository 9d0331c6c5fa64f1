import Foundry.Tool.Text

/-!
# Tools for files

Making, removing, moving and listing files. A tool goes through all its operands and
says what it could not do.
-/

namespace Foundry

variable (fs : Files) (cwd : Place)

namespace Tool

/-- Do something to each operand; ends with a code if one of them failed. -/
def eachOperand (i : Invocation) (code : Nat) (f : String → Piece (Option String)) :
    List String → Piece Nat
  | [] => pure 0
  | path :: rest => do
    let failed ← match ← f path with
      | some message => do
        i.complain message
        pure code
      | none => pure 0
    return max failed (← eachOperand i code f rest)

/-- Carry out an operation on files and say what went wrong. -/
def orMessage (r : Except Cause Unit) (what : String) : Option String :=
  match r with
  | .ok _ => none
  | .error e => some s!"{what}: {Invocation.reason e}"

def missingOperand (i : Invocation) (what : String) : Piece Nat := do
  i.complain s!"missing {what}\nTry '{i.name} --help' for more information."
  return 1

/-- Carry out what may fail half way. -/
def changePartly (f : Files → Files × Except Cause Unit) : Piece (Except Cause Unit) :=
  Piece.act fun _ kernel =>
    let (files, r) := f kernel.files
    ({ kernel with files }, r)

def rm : Tool := fun i => do
  let (os, paths) := optionsOf [] i.args
  let force := hasOption os 'f'
  let deep := hasOption os 'r' || hasOption os 'R'
  if paths.isEmpty then
    if force then return 0 else missingOperand i "operand"
  else
    eachOperand i 1 (fun path => do
      let p := Text.fromBytes path
      let last := (Path.names p).getLast?
      if deep && (last == some "." || last == some "..") then
        return some s!"refusing to remove '.' or '..' directory: skipping '{path}'"
      else
        match ← Piece.see fun k => k.files.find i.cwd false p with
        | .error e =>
          if force && (e = .notFound || e = .notDirectory) then return none
          else return some s!"cannot remove '{path}': {Invocation.reason e}"
        | .ok (_, node) =>
          if node.isDir then
            if deep then
              return orMessage (← changePartly fun fs => fs.removeTree i.cwd p)
                s!"cannot remove '{path}'"
            else return some s!"cannot remove '{path}': Is a directory"
          else
            return orMessage (← Piece.changeFiles fun fs => fs.removeFile i.cwd p)
              s!"cannot remove '{path}'") paths

def rmdir : Tool := fun i => do
  let (_, paths) := optionsOf [] i.args
  if paths.isEmpty then missingOperand i "operand"
  else eachOperand i 1 (fun path => do
    return orMessage (← Piece.changeFiles fun fs => fs.removeDir i.cwd (Text.fromBytes path))
      s!"failed to remove '{path}'") paths

def mkdir : Tool := fun i => do
  let (os, paths) := optionsOf ['m'] i.args
  if paths.isEmpty then missingOperand i "operand"
  else eachOperand i 1 (fun path => do
    let p := Text.fromBytes path
    let what := s!"cannot create directory '{path}'"
    if hasOption os 'p' then return orMessage (← changePartly fun fs => fs.makeDirs i.cwd p) what
    else return orMessage (← Piece.changeFiles fun fs => fs.makeDir i.cwd p) what) paths

def touch : Tool := fun i => do
  let (os, paths) := optionsOf ['d', 't', 'r'] i.args
  if paths.isEmpty then missingOperand i "file operand"
  else eachOperand i 1 (fun path => do
    let p := Text.fromBytes path
    if (← Piece.see fun k => k.files.exists? i.cwd p) || hasOption os 'c' then return none
    else
      return orMessage (← Piece.changeFiles fun fs => fs.edit i.cwd p id)
        s!"cannot touch '{path}'") paths

/-- The path of an operand inside a directory, or the target itself. -/
def destination (source target : String) : String :=
  if fs.isDir cwd (Text.fromBytes target) then Path.join target (baseName source) else target

/-- Copy a file, or a directory with all it holds. -/
def copyTree (source target : String) : Except Cause Files := do
  let (p, node) ← fs.find cwd true source
  match node with
  | .file _ bytes mode => do
    let isNew := !fs.exists? cwd target
    let fs ← fs.write cwd target bytes
    if isNew then fs.setMode cwd target mode else return fs
  | .dir _ => do
    let fs ← if fs.isDir cwd target then pure fs else fs.makeDir cwd target
    let (q, _) ← fs.find cwd true target
    return (fs.below p).foldl (fun fs e =>
      match e.2 with
      | .file _ bytes mode =>
        { fs.put (q ++ e.1) (.file fs.nextId bytes mode) with nextId := fs.nextId + 1 }
      | node => fs.put (q ++ e.1) node) fs
  | _ => fs.write cwd target .empty

def cp : Tool := fun i => do
  let (os, paths) := optionsOf [] i.args
  let deep := hasOption os 'r' || hasOption os 'R' || hasOption os 'a'
  match paths.reverse with
  | [] => missingOperand i "file operand"
  | [only] => missingOperand i s!"destination file operand after '{only}'"
  | target :: sources =>
    eachOperand i 1 (fun source => do
      let s := Text.fromBytes source
      match ← Piece.see fun k => k.files.find i.cwd true s with
      | .error e => return some s!"cannot stat '{source}': {Invocation.reason e}"
      | .ok (_, node) =>
        if node.isDir && !deep then return some s!"-r not specified; omitting directory '{source}'"
        else
          let t := Text.fromBytes (← Piece.see fun k => destination k.files i.cwd source target)
          return orMessage (← Piece.changeFiles fun fs => copyTree fs i.cwd s t)
            s!"cannot create regular file '{Text.asBytes t}'") sources.reverse

def mv : Tool := fun i => do
  let (_, paths) := optionsOf [] i.args
  match paths.reverse with
  | [] => missingOperand i "file operand"
  | [only] => missingOperand i s!"destination file operand after '{only}'"
  | target :: sources =>
    eachOperand i 1 (fun source => do
      let s := Text.fromBytes source
      match ← Piece.see fun k => k.files.find i.cwd false s with
      | .error e => return some s!"cannot stat '{source}': {Invocation.reason e}"
      | .ok _ =>
        let t ← Piece.see fun k => destination k.files i.cwd source target
        return orMessage (← Piece.changeFiles fun fs => fs.rename i.cwd s (Text.fromBytes t))
          s!"cannot move '{source}' to '{t}'") sources.reverse

def ln : Tool := fun i => do
  let (os, paths) := optionsOf [] i.args
  let (source, target) := match paths with
    | [source, target] => (source, target)
    | [source] => (source, baseName source)
    | _ => ("", "")
  let t := Text.fromBytes (← Piece.see fun k => destination k.files i.cwd source target)
  if hasOption os 'f' then
    let _ ← Piece.changeFiles fun fs => fs.removeFile i.cwd t
  let kind := if hasOption os 's' then "symbolic link" else "hard link"
  let r ← Piece.changeFiles fun fs =>
    if hasOption os 's' then fs.makeLink i.cwd (Text.fromBytes source) t
    else do
      let (_, node) ← fs.find i.cwd false (Text.fromBytes source)
      let at_ ← fs.locate i.cwd false t
      if at_.node.isSome then .error .alreadyExists else .ok (fs.put at_.place node)
  match orMessage r s!"failed to create {kind} '{target}'" with
  | some message => do
    i.complain message
    return 1
  | none => return 0

/-- The mode that a text such as `755` or `u+x` makes of a mode. -/
def modeFrom? (text : String) (old : Nat) : Option Nat :=
  let cs := text.toList
  if !cs.isEmpty && cs.all Printf.isOctal then
    some (cs.foldl (fun n c => 8 * n + (c.toNat - 48)) 0)
  else
    let who := cs.takeWhile fun c => "ugoa".toList.contains c
    let bits := fun (what : List Char) =>
      let one := (if what.contains 'r' then 4 else 0) + (if what.contains 'w' then 2 else 0) +
        (if what.contains 'x' then 1 else 0)
      let all := who.isEmpty || who.contains 'a'
      (if all || who.contains 'u' then one * 64 else 0) +
        (if all || who.contains 'g' then one * 8 else 0) +
          (if all || who.contains 'o' then one else 0)
    match cs.drop who.length with
    | '+' :: what => some (old ||| bits what)
    | '-' :: what => some (old &&& (0o7777 ^^^ bits what))
    | '=' :: what => some (bits what)
    | _ => none

def chmod : Tool := fun i => do
  match i.args with
  | mode :: paths =>
    eachOperand i 1 (fun path => do
      let p := Text.fromBytes path
      match ← Piece.see fun k => k.files.mode i.cwd p with
      | .error e => return some s!"cannot access '{path}': {Invocation.reason e}"
      | .ok old =>
        match modeFrom? mode old with
        | none => return some s!"invalid mode: '{mode}'"
        | some mode =>
          return orMessage (← Piece.changeFiles fun fs => fs.setMode i.cwd p mode)
            s!"changing permissions of '{path}'") paths
  | [] => missingOperand i "operand"

/-- The names that `ls` shows of a directory. -/
def shownNames (os : List (Char × String)) (names : List String) : List String :=
  let names := if hasOption os 'a' then "." :: ".." :: names else names
  let shown := if hasOption os 'a' || hasOption os 'A' then names
    else names.filter fun n => !n.startsWith "."
  let sorted := (shown.map Text.asBytes).mergeSort (· ≤ ·)
  if hasOption os 'r' then sorted.reverse else sorted

/-- What a path leads to; a link that leads nowhere counts itself. -/
def leadsTo (path : String) : Except Cause (Place × Node) :=
  match fs.find cwd true path with
  | .ok found => .ok found
  | .error _ => fs.find cwd false path

def ls : Tool := fun i => do
  let (os, paths) := optionsOf [] i.args
  let operands := if paths.isEmpty then ["."] else paths.mergeSort (· ≤ ·)
  let rec look : List String → Piece (List String × List (String × List String) × Nat)
    | [] => pure ([], [], 0)
    | path :: rest => do
      let p := Text.fromBytes path
      match ← Piece.see fun k => (leadsTo k.files i.cwd p, k.files.list i.cwd p) with
      | (.error e, _) => do
        i.complain s!"cannot access '{path}': {Invocation.reason e}"
        let (files, dirs, _) ← look rest
        return (files, dirs, 2)
      | (.ok _, .ok names) => do
        let (files, dirs, code) ← look rest
        if hasOption os 'd' then return (path :: files, dirs, code)
        else return (files, (path, shownNames os names) :: dirs, code)
      | (.ok _, .error _) => do
        let (files, dirs, code) ← look rest
        return (path :: files, dirs, code)
  let (files, dirs, code) ← look operands
  let sections := dirs.map fun d =>
    (if 1 < operands.length then d.1 ++ ":\n" else "") ++ unlines d.2
  let parts := (if files.isEmpty then [] else [unlines files]) ++ sections
  i.print ("\n".intercalate parts)
  return code

def table : List (String × Tool) :=
  [("cat", cat), ("echo", echo), ("printf", printf), ("seq", seq), ("head", head), ("tail", tail),
   ("wc", wc), ("tr", tr), ("sort", sort), ("uniq", uniq), ("cut", cut), ("grep", grep),
   ("tee", tee),
   ("yes", yes), ("printenv", printenv), ("true", succeed), ("false", refuse), ("pwd", pwd),
   ("sleep", sleep),
   ("basename", basename), ("dirname", dirname), ("rm", rm), ("rmdir", rmdir), ("mkdir", mkdir),
   ("touch", touch), ("cp", cp), ("mv", mv), ("ln", ln), ("chmod", chmod), ("ls", ls)]

end Tool

end Foundry
