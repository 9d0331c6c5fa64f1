import Foundry.Files.Tree

/-!
# Path patterns

Patterns with `*`, `?`, character classes and `**`, which stands for any number of
directories. Each component of a pattern is matched against one name. Matches are
found one at a time, so that each can be dealt with before the next is looked for.
-/

namespace Foundry

variable (fs : Files) (cwd : Place)

namespace Glob

/-! ## Components -/

inductive Specifier where
  | single (c : Char)
  | range (low high : Char)
deriving DecidableEq, Repr, Inhabited

inductive Token where
  | char (c : Char)
  | anyChar
  | anySequence
  /-- Any number of directories; it fills its component. -/
  | anyDirectories
  | within (class_ : List Specifier)
  | except (class_ : List Specifier)
deriving DecidableEq, Repr, Inhabited

def Specifier.admits (s : Specifier) (c : Char) : Bool :=
  match s with
  | .single d => c == d
  | .range low high => low ≤ c && c ≤ high

def readClass : List Char → List Specifier
  | a :: '-' :: b :: rest => .range a b :: readClass rest
  | a :: rest => .single a :: readClass rest
  | [] => []

/-- A character class after its opening bracket: the members, and the rest. The first member may
be a closing bracket. -/
def readBracket (cs : List Char) : Option (Token × List Char) :=
  match cs with
  | '!' :: first :: rest =>
    if rest.contains ']' then
      some (.except (readClass (first :: rest.takeWhile (· ≠ ']'))),
        (rest.dropWhile (· ≠ ']')).drop 1)
    else none
  | '!' :: [] => none
  | first :: rest =>
    if rest.contains ']' then
      some (.within (readClass (first :: rest.takeWhile (· ≠ ']'))),
        (rest.dropWhile (· ≠ ']')).drop 1)
    else none
  | [] => none

structure SyntaxError where
  position : Nat
  reason : String
deriving DecidableEq, Repr, Inhabited

def SyntaxError.message (e : SyntaxError) : String :=
  s!"Pattern syntax error near position {e.position}: {e.reason}"

def wildcardsReason : String := "wildcards are either regular `*` or recursive `**`"

def directoriesReason : String := "recursive wildcards must form a single path component"

def classReason : String := "invalid range pattern"

/-- The tokens of a text in which `**` may stand only between slashes. `edge` says whether the
text from here on starts a component, and `position` how many characters stand before it. -/
def readTokens : Nat → Bool → Nat → List Char → Except SyntaxError (List Token)
  | 0, _, position, _ => .error ⟨position, classReason⟩
  | _, _, _, [] => .ok []
  | fuel + 1, edge, position, c :: rest =>
    match c with
    | '?' => (readTokens fuel false (position + 1) rest).map (.anyChar :: ·)
    | '*' =>
      match rest with
      | '*' :: '*' :: _ => .error ⟨position + 2, wildcardsReason⟩
      | '*' :: rest =>
        if !edge then .error ⟨position - 1, directoriesReason⟩
        else match rest with
          | [] => .ok [.anyDirectories]
          | '/' :: rest =>
            (readTokens fuel true (position + 3) rest).map (.anyDirectories :: ·)
          | _ => .error ⟨position + 2, directoriesReason⟩
      | rest => (readTokens fuel false (position + 1) rest).map (.anySequence :: ·)
    | '[' =>
      match readBracket rest with
      | none => .error ⟨position, classReason⟩
      | some (token, after) => do
        let more ← readTokens fuel false (position + 1 + (rest.length - after.length)) after
        .ok (token :: more)
    | c => (readTokens fuel (c == '/') (position + 1) rest).map (.char c :: ·)

def tokens (text : List Char) : Except SyntaxError (List Token) :=
  readTokens (text.length + 1) true 0 text

def matchName : List Token → List Char → Bool
  | [], cs => cs.isEmpty
  | .anySequence :: ts, cs | .anyDirectories :: ts, cs => matchRest ts cs
  | .anyChar :: ts, _ :: cs => matchName ts cs
  | .char d :: ts, c :: cs => c == d && matchName ts cs
  | .within class_ :: ts, c :: cs => class_.any (·.admits c) && matchName ts cs
  | .except class_ :: ts, c :: cs => !class_.any (·.admits c) && matchName ts cs
  | _ :: _, [] => false
where
  matchRest (ts : List Token) : List Char → Bool
    | [] => matchName ts []
    | c :: cs => matchName ts (c :: cs) || matchRest ts cs

def literal? : List Token → Option (List Char)
  | [] => some []
  | .char c :: ts => (literal? ts).map (c :: ·)
  | _ => none

/-- The text in which every character stands for itself. -/
def escape (text : String) : String :=
  String.ofList (text.toList.flatMap fun c =>
    if c = '?' ∨ c = '*' ∨ c = '[' ∨ c = ']' then ['[', c, ']'] else [c])

/-! ## Patterns -/

structure Pattern where
  absolute : Bool
  components : List (List Token)
  /-- Only directories match a pattern that ends in a slash. -/
  onlyDirs : Bool
deriving DecidableEq, Repr, Inhabited

/-- A pattern is valid if it is so as a whole and in each component. -/
def Pattern.parse (text : String) : Except SyntaxError Pattern := do
  let _ ← tokens text.toList
  let absolute := Path.isAbsolute text
  let body := if absolute then text.toList.drop 1 else text.toList
  let parts := body.splitOn '/'
  let parts := if parts.getLast? = some [] then parts.dropLast else parts
  let parts := if absolute ∧ body.isEmpty then [[]] else parts
  return ⟨absolute, ← parts.mapM tokens, text.endsWith "/"⟩

/-- A path that may lead to matches, and the component its name is to match; none if it has
been matched already. -/
structure Candidate where
  path : String
  isDir : Bool
  component : Option Nat
deriving DecidableEq, Repr, Inhabited

/-- What a search has still to look at: a candidate, or a directory that could not be listed. -/
inductive Lead where
  | candidate (c : Candidate)
  | unreadable (dir : String) (cause : Cause)
deriving DecidableEq, Repr, Inhabited

def isRecursive (ts : List Token) : Bool := ts.contains .anyDirectories

/-- The path of an entry of a directory. The working directory itself is not shown. -/
def below (dir name : String) : String := if dir = "." then name else Path.join dir name

/-- The leads below a directory for the component with that number, in the order in which they
are to be looked at. Components without wildcards are looked up without listing. -/
def expand (fs : Files) (cwd : Place) (p : Pattern) (dir : String) (isDir : Bool) (number : Nat) :
    List (List Token) → List Lead
  | [] => []
  | ts :: rest =>
    match literal? ts with
    | some cs =>
      let name := String.ofList cs
      let path := below dir name
      let special := name = "." ∨ name = ".."
      let found := if special then isDir
        else fs.exists? cwd path || (fs.find cwd false path).toOption.isSome
      if !found then []
      else if rest.isEmpty then [.candidate ⟨path, fs.isDir cwd path, none⟩]
      else expand fs cwd p path (fs.isDir cwd path) (number + 1) rest
    | none =>
      if !isDir then []
      else match fs.list cwd dir with
      | .error cause => [.unreadable dir cause]
      | .ok names =>
        let children := names.mergeSort.map fun name =>
          let path := below dir name
          Lead.candidate ⟨path, fs.isDir cwd path, some number⟩
        let dots := match ts with
          | .char '.' :: _ => ["..", "."].filter fun (name : String) => matchName ts name.toList
          | _ => []
        let specials := dots.flatMap fun name =>
          let path := Path.join dir name
          if rest.isEmpty then [Lead.candidate ⟨path, fs.isDir cwd path, none⟩]
          else expand fs cwd p path (fs.isDir cwd path) (number + 1) rest
        specials ++ children

/-- The last of the `**` components that stand in a row from a number on. -/
def lastRecursive (p : Pattern) : Nat → Nat → Nat
  | 0, number => number
  | fuel + 1, number =>
    match p.components[number + 1]? with
    | some ts => if isRecursive ts then lastRecursive p fuel (number + 1) else number
    | none => number

/-- Match the name of a candidate against a component that is no `**`. -/
def tryName (p : Pattern) (c : Candidate) (number : Nat) : Option String × List Lead :=
  match p.components[number]?, Path.fileName? c.path with
  | some ts, some name =>
    if !matchName ts name.toList then (none, [])
    else if number + 1 = p.components.length then
      (if p.onlyDirs && !c.isDir then none else some c.path, [])
    else (none, expand fs cwd p c.path c.isDir (number + 1) (p.components.drop (number + 1)))
  | _, _ => (none, [])

/-- Look at one candidate: the match it is, if it is one, and what it leads to. -/
def visit (p : Pattern) (c : Candidate) : Option String × List Lead :=
  match c.component with
  | none => (if p.onlyDirs && !c.isDir then none else some c.path, [])
  | some number =>
    match p.components[number]? with
    | none => (none, [])
    | some ts =>
      if !isRecursive ts then tryName fs cwd p c number
      else
        let last := lastRecursive p p.components.length number
        let ends := last + 1 = p.components.length
        let inside := if c.isDir
          then expand fs cwd p c.path c.isDir last (p.components.drop last) else []
        if ends then (if c.isDir then some c.path else none, inside)
        else
          let (found, more) := tryName fs cwd p c (last + 1)
          (found, more ++ inside)

def start (p : Pattern) : List Lead :=
  let dir := if p.absolute then "/" else "."
  expand fs cwd p dir (fs.isDir cwd dir) 0 p.components

end Glob

/-! ## Removing matches -/

namespace Files

/-- Remove a match: a directory with all it holds, anything else by itself. -/
def removeMatch (path : String) : Files × Except Cause Unit :=
  if fs.isDir cwd path && !fs.isLink cwd path then fs.removeTree cwd path
  else match fs.removeFile cwd path with
    | .ok fs => (fs, .ok ())
    | .error e => (fs, .error e)

def unreadableText (dir : String) (cause : Cause) : String :=
  "Failed to read build artifact: attempting to read `" ++ dir ++ "` resulted in an error: "
    ++ cause.message

/-- Remove matches as they are found, following no more than `fuel` leads. -/
def sweepFrom (p : Glob.Pattern) (cwd : Place) :
    Nat → Files → List Glob.Lead → Files × List String
  | 0, fs, _ => (fs, [])
  | _, fs, [] => (fs, [])
  | fuel + 1, fs, .unreadable dir cause :: todo =>
    let (fs, warnings) := sweepFrom p cwd fuel fs todo
    (fs, unreadableText dir cause :: warnings)
  | fuel + 1, fs, .candidate c :: todo =>
    match Glob.visit fs cwd p c with
    | (none, more) => sweepFrom p cwd fuel fs (more ++ todo)
    | (some path, more) =>
      let (fs, outcome) := fs.removeMatch cwd path
      let (fs, warnings) := sweepFrom p cwd fuel fs (more ++ todo)
      match outcome with
      | .ok _ => (fs, warnings)
      | .error e =>
        if e = .notFound then (fs, warnings)
        else (fs, s!"Failed to remove build artifact {path}: {e.message}" :: warnings)

def maxLeads : Nat := 1000000

/-- Remove everything that matches a pattern; gives what went wrong. -/
def sweep (pattern : String) : Files × List String :=
  match Glob.Pattern.parse pattern with
  | .error e => (fs, ["Invalid artifact pattern " ++ pattern ++ ": " ++ e.message])
  | .ok p => sweepFrom p cwd maxLeads fs (Glob.start fs cwd p)

end Files

end Foundry
