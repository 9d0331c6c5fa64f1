/-!
# Path texts

Paths as they are written, joined and shown. Nothing here looks at files: `.` and
`..` are names like others, except that a `.` after the first name and repeated
slashes say nothing.
-/

namespace Foundry

namespace Path

def isAbsolute (p : String) : Bool := p.toList.head? == some '/'

/-- One path below another. An absolute path stands for itself. -/
def join (base p : String) : String :=
  if isAbsolute p || base.isEmpty then p
  else if base.toList.getLast? = some '/' then base ++ p
  else base ++ "/" ++ p

/-- Drop what says nothing from the end of a reversed path: slashes, but not the root, and
single dots after a slash. -/
def trimTail : List Char → List Char
  | ['/'] => ['/']
  | '/' :: rest => trimTail rest
  | '.' :: '/' :: rest => trimTail ('/' :: rest)
  | cs => cs
termination_by cs => cs.length

def trimmed (p : String) : List Char := trimTail p.toList.reverse

/-- The path without its last name; the root and the empty path have no parent. -/
def parent? (p : String) : Option String :=
  match trimmed p with
  | [] | ['/'] => none
  | cs => some (String.ofList (trimTail (cs.dropWhile (· ≠ '/'))).reverse)

/-- The last name of a path, unless it is `.` or `..`. -/
def fileName? (p : String) : Option String :=
  let name := String.ofList ((trimmed p).takeWhile (· ≠ '/')).reverse
  if name = "" ∨ name = "." ∨ name = ".." then none else some name

/-- The path with its last name replaced, or with the name added where there is none. -/
def withFileName (p name : String) : String :=
  match fileName? p with
  | some _ => join ((parent? p).getD "") name
  | none => join p name

/-- The part of a file name after its last dot. A dot in front makes no extension. -/
def extension? (name : String) : Option String :=
  let rev := name.toList.reverse
  let ext := rev.takeWhile (· ≠ '.')
  match rev.drop ext.length with
  | '.' :: _ :: _ => if name = ".." then none else some (String.ofList ext.reverse)
  | _ => none

/-- The names of a path in order, without empty ones. -/
def names (p : String) : List String :=
  ((p.toList.splitOn '/').map String.ofList).filter (· ≠ "")

end Path

end Foundry
