import Foundry.Cause
import Foundry.Files.Path

/-!
# Trees of files

A tree maps places, the names from the root on, to nodes. Looking up a path
follows the links on its way. Directories that hold something are present
themselves, so a place is reached exactly when all directories above it are.
-/

namespace Foundry

/-- The names from the root to a node. -/
abbrev Place := List String

inductive Device where
  /-- Always empty, and takes everything. -/
  | null
  /-- Zeros without end; takes everything. -/
  | zeros
  /-- Has no room left. -/
  | full
deriving DecidableEq, Repr, Inhabited

inductive Node where
  | dir (mode : Nat)
  /-- A plain file. Its number stays the same when it is renamed. -/
  | file (id : Nat) (bytes : ByteArray) (mode : Nat)
  | link (target : String)
  | device (d : Device)
  | program (name : String)
deriving Inhabited

namespace Node

def isDir : Node → Bool
  | .dir _ => true
  | _ => false

def isFile : Node → Bool
  | .file .. | .program _ => true
  | _ => false

def isLink : Node → Bool
  | .link _ => true
  | _ => false

end Node

structure Files where
  nodes : List (Place × Node) := []
  nextId : Nat := 0
deriving Inhabited

namespace Files

/-! ## Places -/

variable (fs : Files)

/-- The node at a place. The root is a directory. -/
def get? (p : Place) : Option Node :=
  if p = [] then some (.dir 0o755) else fs.nodes.lookup p

def putIn (p : Place) (n : Node) : List (Place × Node) → List (Place × Node)
  | [] => [(p, n)]
  | e :: rest => if e.1 = p then (p, n) :: rest else e :: putIn p n rest

def put (p : Place) (n : Node) : Files := { fs with nodes := putIn p n fs.nodes }

def erase (p : Place) : Files :=
  { fs with nodes := fs.nodes.filter fun e => e.1 ≠ p }

/-- Everything below a place, in order, as places relative to it. -/
def below (p : Place) : List (Place × Node) :=
  fs.nodes.filterMap fun e =>
    if p.isPrefixOf e.1 ∧ p ≠ e.1 then some (e.1.drop p.length, e.2) else none

def eraseBelow (p : Place) : Files :=
  { fs with nodes := fs.nodes.filter fun e => !(p.isPrefixOf e.1 ∧ p ≠ e.1) }

def namesAt (p : Place) : List String :=
  (fs.below p).filterMap fun e => match e.1 with | [name] => some name | _ => none

/-- Names longer than this many bytes are refused. -/
def maxName : Nat := 255

def maxPath : Nat := 4095

def maxLinks : Nat := 40

/-! ## Looking up -/

/-- Where a path leads: a place whose directory is there, and what stands at the place. -/
structure Target where
  place : Place
  node : Option Node
  /-- The path ended in a slash, so only a directory will do. -/
  asDir : Bool
deriving Inhabited

/-- Follow names from a directory. A final link is followed if `follow`, or if the path ended in
a slash. Where a link sends a walk is told by `jump`, from the link's target, whether only a
directory will do, the directory of the link and the names after it. -/
def walkNames (fs : Files) (follow : Bool)
    (jump : String → Bool → Place → List String → Except Cause Target) (asDir : Bool)
    (at_ : Place) : List String → Except Cause Target
  | [] => .ok ⟨at_, fs.get? at_, asDir⟩
  | name :: rest =>
    if name = "." then walkNames fs follow jump asDir at_ rest
    else if name = ".." then walkNames fs follow jump asDir at_.dropLast rest
    else if maxName < name.utf8ByteSize then .error .nameTooLong
    else
      let place := at_ ++ [name]
      match fs.get? place with
      | none => if rest.isEmpty then .ok ⟨place, none, asDir⟩ else .error .notFound
      | some (.dir mode) =>
        if rest.isEmpty then .ok ⟨place, some (.dir mode), asDir⟩
        else walkNames fs follow jump asDir place rest
      | some (.link target) =>
        if rest.isEmpty && !follow && !asDir then .ok ⟨place, some (.link target), asDir⟩
        else jump target asDir at_ rest
      | some n =>
        if rest.isEmpty && !asDir then .ok ⟨place, some n, asDir⟩ else .error .notDirectory

/-- Follow names from a directory, and at most `links` links on the way. -/
def walk (fs : Files) (follow : Bool) :
    (links : Nat) → Bool → Place → List String → Except Cause Target
  | 0 => walkNames fs follow fun _ _ _ _ => .error .tooManyLinks
  | links + 1 => walkNames fs follow fun target asDir at_ rest =>
    if target.isEmpty then .error .notFound
    else
      walk fs follow links (asDir || (rest.isEmpty && target.endsWith "/"))
        (if Path.isAbsolute target then [] else at_) (Path.names target ++ rest)

variable (cwd : Place)

/-- Where a path leads from a working directory. -/
def locate (follow : Bool) (path : String) : Except Cause Target :=
  if path.toList.contains '\x00' then
    .error (.text "file name contained an unexpected NUL byte")
  else if path.isEmpty then .error .notFound
  else if maxPath < path.utf8ByteSize then .error .nameTooLong
  else
    let start := if Path.isAbsolute path then [] else cwd
    match fs.get? start with
    | some (.dir _) =>
      walk fs follow maxLinks (path.endsWith "/") start (Path.names path)
    | _ => .error .notFound

def find (follow : Bool) (path : String) : Except Cause (Place × Node) := do
  let t ← fs.locate cwd follow path
  match t.node with
  | some n => .ok (t.place, n)
  | none => .error .notFound

def isFile (path : String) : Bool :=
  match fs.find cwd true path with
  | .ok (_, n) => n.isFile
  | .error _ => false

def isDir (path : String) : Bool :=
  match fs.find cwd true path with
  | .ok (_, n) => n.isDir
  | .error _ => false

def isLink (path : String) : Bool :=
  match fs.find cwd false path with
  | .ok (_, n) => n.isLink
  | .error _ => false

def exists? (path : String) : Bool :=
  match fs.find cwd true path with
  | .ok _ => true
  | .error _ => false

/-! ## Single operations -/

def read (path : String) : Except Cause ByteArray := do
  let (_, n) ← fs.find cwd true path
  match n with
  | .file _ bytes _ => .ok bytes
  | .device _ => .ok .empty
  | .dir _ => .error .isDirectory
  | _ => .error .invalidArgument

def size (path : String) : Except Cause Nat := do
  let (_, n) ← fs.find cwd true path
  match n with
  | .file _ bytes _ => .ok bytes.size
  | .dir _ => .ok 4096
  | _ => .ok 0

def list (path : String) : Except Cause (List String) := do
  let (p, n) ← fs.find cwd true path
  if n.isDir then .ok (fs.namesAt p) else .error .notDirectory

def defaultMode : Nat := 0o644

/-- Open a path for writing, making an empty file where there is none. -/
def openForWriting (path : String) : Except Cause (Files × Place × Node) := do
  let t ← fs.locate cwd true path
  match t.node with
  | some (.dir _) => .error .isDirectory
  | some n => .ok (fs, t.place, n)
  | none =>
    if t.asDir then .error .isDirectory
    else
      let n := Node.file fs.nextId .empty defaultMode
      .ok ({ fs.put t.place n with nextId := fs.nextId + 1 }, t.place, n)

/-- Replace the contents of a file by a function of them. -/
def edit (path : String) (f : ByteArray → ByteArray) : Except Cause Files := do
  let (fs, p, n) ← fs.openForWriting cwd path
  match n with
  | .file id bytes mode => .ok (fs.put p (.file id (f bytes) mode))
  | .device .full => .error .noSpace
  | .device _ => .ok fs
  | _ => .error (.os 26)

def write (path : String) (bytes : ByteArray) : Except Cause Files :=
  fs.edit cwd path fun _ => bytes

def append (path : String) (bytes : ByteArray) : Except Cause Files :=
  fs.edit cwd path (· ++ bytes)

/-- Change the contents of the file with that number, wherever it is. -/
def editId (id : Nat) (f : ByteArray → ByteArray) : Files :=
  { fs with nodes := fs.nodes.map fun e =>
      match e.2 with
      | .file n bytes mode => if n = id then (e.1, .file n (f bytes) mode) else e
      | _ => e }

def contents? (id : Nat) : Option ByteArray :=
  fs.nodes.findSome? fun e =>
    match e.2 with
    | .file n bytes _ => if n = id then some bytes else none
    | _ => none

def dirMode : Nat := 0o755

def makeDir (path : String) : Except Cause Files := do
  let t ← fs.locate cwd false path
  match t.node with
  | some _ => .error .alreadyExists
  | none => .ok (fs.put t.place (.dir dirMode))

/-- A path and the paths above it, from the inside out, at most `fuel` of them. -/
def ancestors : Nat → String → List String
  | 0, _ => []
  | fuel + 1, path =>
    if path.isEmpty then []
    else path :: match Path.parent? path with
      | some p => ancestors fuel p
      | none => []

/-- Find the innermost directory that is there or can be made. Gives the paths still missing,
from the outside in. -/
def makeInnermost (fs : Files) (cwd : Place) (missing : List String) :
    List String → Except Cause (Files × List String)
  | [] => .ok (fs, missing)
  | p :: rest =>
    match fs.makeDir cwd p with
    | .ok fs => .ok (fs, missing)
    | .error e =>
      if e = .notFound then makeInnermost fs cwd (p :: missing) rest
      else if e = .alreadyExists ∧ fs.isDir cwd p then .ok (fs, missing)
      else .error e

/-- Make directories one after another; one that is there already will do. -/
def makeEach (fs : Files) (cwd : Place) : List String → Files × Except Cause Unit
  | [] => (fs, .ok ())
  | p :: rest =>
    match fs.makeDir cwd p with
    | .ok fs => makeEach fs cwd rest
    | .error e =>
      if e = .alreadyExists ∧ fs.isDir cwd p then makeEach fs cwd rest else (fs, .error e)

def makeDirs (path : String) : Files × Except Cause Unit :=
  match fs.makeInnermost cwd [] (ancestors (path.length + 1) path) with
  | .error e => (fs, .error e)
  | .ok (fs, missing) => fs.makeEach cwd missing

def removeFile (path : String) : Except Cause Files := do
  let (p, n) ← fs.find cwd false path
  if n.isDir then .error .isDirectory else .ok (fs.erase p)

/-- Why the last name of a path stops the removal of its directory. -/
def lastNameError? (path : String) : Option Cause :=
  match (Path.names path).getLast? with
  | none => some (.os 16)
  | some "." => some .invalidArgument
  | some ".." => some .notEmpty
  | some _ => none

def removeDir (path : String) : Except Cause Files := do
  let (p, n) ← fs.find cwd false path
  if !n.isDir then .error .notDirectory
  else match lastNameError? path with
    | some e => .error e
    | none => if (fs.namesAt p).isEmpty then .ok (fs.erase p) else .error .notEmpty

/-- Remove a directory with all it holds. A link is removed itself. What a directory holds is
removed before the directory, so a path that cannot be removed is emptied first. -/
def removeTree (path : String) : Files × Except Cause Unit :=
  match fs.find cwd false path with
  | .error e => (fs, .error e)
  | .ok (p, .link _) => (fs.erase p, .ok ())
  | .ok (p, .dir _) =>
    let emptied := fs.eraseBelow p
    match emptied.find cwd false path, lastNameError? path with
    | .error e, _ => (emptied, .error e)
    | .ok _, some e => (emptied, .error e)
    | .ok _, none => (emptied.erase p, .ok ())
  | .ok _ => (fs, .error .notDirectory)

/-- Give the node at one place, with all below it, another place. -/
def move (source target : Place) : Files :=
  let cleared := (fs.eraseBelow target).erase target
  { cleared with nodes := cleared.nodes.map fun e =>
      if source.isPrefixOf e.1 then (target ++ e.1.drop source.length, e.2) else e }

def rename (source target : String) : Except Cause Files := do
  let (p, n) ← fs.find cwd false source
  let t ← fs.locate cwd false target
  if t.place = p then .ok fs
  else if n.isDir then
    if p.isPrefixOf t.place then .error .invalidArgument
    else match t.node with
      | none => .ok (fs.move p t.place)
      | some m =>
        if !m.isDir then .error .notDirectory
        else if (fs.namesAt t.place).isEmpty then .ok (fs.move p t.place)
        else .error .notEmpty
  else match t.node with
    | some (.dir _) => .error .isDirectory
    | _ => if t.asDir then .error .notDirectory else .ok (fs.move p t.place)

def makeLink (target path : String) : Except Cause Files := do
  let t ← fs.locate cwd false path
  match t.node with
  | some _ => .error .alreadyExists
  | none => .ok (fs.put t.place (.link target))

def mode (fs : Files) (cwd : Place) (path : String) : Except Cause Nat := do
  let (_, n) ← fs.find cwd true path
  match n with
  | .dir mode | .file _ _ mode => .ok mode
  | .link _ => .ok 0o777
  | .device _ => .ok 0o666
  | .program _ => .ok 0o755

def setMode (path : String) (mode : Nat) : Except Cause Files := do
  let (p, n) ← fs.find cwd true path
  match n with
  | .dir _ => .ok (fs.put p (.dir mode))
  | .file id bytes _ => .ok (fs.put p (.file id bytes mode))
  | _ => .ok fs

end Files

end Foundry
