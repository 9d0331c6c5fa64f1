import Foundry.Files.Executable
import Foundry.Shell.Builtin
import Foundry.Shell.Reader
import Foundry.Tool.Files

/-!
# Running commands

Words are expanded and commands carried out on the state of a shell, step by step on
the machine. The functions call each other with less and less fuel, of which a shell is
given more than any run can use. A command that is the last of its process takes the
process over instead of starting another one.
-/

namespace Foundry

variable (s : State) (streams : List (Nat × Nat))

namespace Shell

/-- More steps than any run takes. -/
def runFuel : Nat := 1000000000000

/-- Where a shell looks for programs if its environment does not say so. -/
def startingPath : String := "/usr/local/sbin:/usr/local/bin:/usr/sbin:/usr/bin:/sbin:/bin"

/-- How deep functions can call each other. -/
def maxDepth : Nat := 1000

/-- The value of a parameter, special ones included. -/
def State.parameter? (name : String) : Option String :=
  match name with
  | "?" => some (toString s.status)
  | "$" => some (toString s.pid)
  | "!" => s.lastJob.map fun n => toString n
  | "#" => some (toString s.args.length)
  | "-" => some (String.ofList s.flags)
  | "0" => some s.name
  | "@" => if s.args.isEmpty then none else some (" ".intercalate s.args)
  | "*" =>
    if s.args.isEmpty then none
    else some ((String.ofList (s.separators.take 1)).intercalate s.args)
  | name =>
    match Builtin.natural? name with
    | some n => s.args[n - 1]?
    | none => s.value? name

/-- Replace or close a stream. -/
def withStream (number : Nat) (stream : Option Nat) : List (Nat × Nat) :=
  let others := streams.filter fun e => e.1 ≠ number
  match stream with
  | some n => (number, n) :: others
  | none => others

/-- Why a file cannot be opened, in the words of a shell. -/
def openingReason (missing : String) (e : Cause) : String :=
  if e = .notFound || e = .notDirectory then missing else Invocation.reason e

/-- What is said of a file that cannot be read. -/
def cannotOpen (path : String) (e : Cause) : String :=
  let reason := openingReason "No such file" e
  s!"cannot open {path}: {reason}"

/-- The state of a child: actions on signals are not handed down. -/
def State.forChild : State :=
  { s with streams, jobs := [], loops := 0, traps := s.traps.filter fun t => t.2.isEmpty }

/-- Home instead of a tilde at the start of a word. -/
def withHome (parts : List Part) : List Part :=
  match parts with
  | .bare text :: rest =>
    match text.toList with
    | ['~'] | '~' :: '/' :: _ =>
      match s.value? "HOME" with
      | some home => .quoted home :: .bare (String.ofList (text.toList.drop 1)) :: rest
      | none => parts
    | _ => parts
  | parts => parts

def withoutLineEnds (s : String) : String :=
  String.ofList ((s.toList.reverse.dropWhile (· == '\n')).reverse.filter (· ≠ '\x00'))

/-- A step that changes nothing but takes time. -/
def pause : Eval Unit := perform (Piece.act fun _ k => (k, ()))

def closeStream (stream : Nat) : Eval Unit :=
  perform (Piece.act fun pid k => (k.close pid stream, ()))

/-- A new pipe, both ends of which the process holds. -/
def makePipe : Eval (Nat × Nat) :=
  perform (Piece.act fun pid k =>
    let (r, w, k) := k.makePipe
    (k.hold pid [r, w], (r, w)))

/-- Start a process that holds the streams of a shell, and give its number. -/
def startChild (body : Piece Nat) : Eval Nat :=
  perform (Piece.fork s.holds (body .exit))

/-- Hold exactly the streams that the shell has open. -/
def holdStreams : Eval Unit := do
  let s ← get
  perform (Piece.act fun pid k => (k.holdOnly pid s.holds, ()))

/-- Open a file, and say what went wrong if that is not possible. -/
def openFile (kind : RedirectKind) (path : String) : Eval (Option Nat) := do
  let s ← get
  let cwd := s.cwd
  let p := Text.fromBytes path
  match (Invocation.ownStream? path).bind fun n => s.streams.lookup n with
  | some stream => return some stream
  | none => pure ()
  let r ← perform (Piece.act fun _ k =>
    let opened := match kind with
      | .input => k.openReading cwd p
      | .output =>
        if s.hasFlag 'C' && k.files.isFile cwd p then .error .alreadyExists
        else k.openWriting cwd p false
      | .appending => k.openWriting cwd p true
      | .both => do
        let (files, _, _) ← k.files.openForWriting cwd p
        { k with files }.openReading cwd p
      | _ => k.openWriting cwd p false
    match opened with
    | .ok (stream, k) => (k, Except.ok stream)
    | .error e => (k, .error e))
  match r with
  | .ok stream => return some stream
  | .error e => do
    if kind = .input then complain (cannotOpen path e)
    else
      let reason := openingReason "Directory nonexistent" e
      complain s!"cannot create {path}: {reason}"
    return none

/-- Make one stream the same as another one, or close it. -/
def duplicate (number : Nat) (source : String) : Eval Bool := do
  let s ← get
  if source = "-" then
    set { s with streams := withStream s.streams number none }
    return true
  else match Builtin.natural? source with
    | none => giveUp "Bad fd number"
    | some n =>
      match s.streams.lookup n with
      | some stream => do
        set { s with streams := withStream s.streams number (some stream) }
        return true
      | none => do
        complain s!"{n}: Bad file descriptor"
        return false

/-- How the file of a command is found: by its own path, or in the search path. -/
def findCommand (name : String) : Eval (Except Cause (String × Executable)) := do
  let s ← get
  let n := Text.fromBytes name
  let paths := if n.toList.contains '/' then [n]
    else match s.value? "PATH" with
      | some path => Files.searchPaths (Text.fromBytes path) n
      | none => []
  see fun k => k.files.firstExecutable s.cwd paths

def restoreVariables (saved : List (String × Option Variable)) : Eval Unit :=
  modify fun s => saved.foldl (fun s v => s.setVariable v.1 v.2) s

/-- What became of the body of a loop. -/
inductive Round where
  | next (status : Nat)
  | over (status : Nat)

/-- Run the body of a loop once. Jumps further out go on. -/
def oneRound (body : Eval Nat) : Eval Round := do
  modify fun s => { s with loops := s.loops + 1 }
  let r ← outcome body
  modify fun s => { s with loops := s.loops - 1 }
  match r with
  | .ok status => return .next status
  | .error (.stop n) => if n ≤ 1 then return .over 0 else throw (.stop (n - 1))
  | .error (.again n) => if n ≤ 1 then return .next 0 else throw (.again (n - 1))
  | .error j => throw j

/-- The options of a shell in front of its operands: letters that are set, and the operands. -/
def shellOptions : List String → List Char × List String
  | [] => ([], [])
  | arg :: rest =>
    match arg.toList with
    | ['-', '-'] | ['-'] => ([], rest)
    | '-' :: letters =>
      let (more, operands) := shellOptions rest
      (letters ++ more, operands)
    | '+' :: _ => shellOptions rest
    | _ => ([], arg :: rest)

def calculate (text : String) : Eval Int := do
  let s ← get
  match Arithmetic.evaluate s.value? text with
  | .ok (n, assigned) => do
    for a in assigned do
      assign a.1 (toString a.2)
    return n
  | .error e =>
    if e.startsWith "Illegal" then giveUp e
    else giveUp s!"arithmetic expression: {e}: \"{text}\""

/-- The status of a pipeline is that of its last part. -/
def reportPipeline (endings : List Ending) : Eval Nat :=
  match endings.getLast? with
  | some ending => Builtin.reportEnding ending
  | none => return 0

/-- A test as a program of its own. -/
def runTest (bracketed : Bool) (i : Invocation) : Piece Nat := do
  let args? := if bracketed then
      if i.args.getLast? = some "]" then some i.args.dropLast else none
    else some i.args
  match args? with
  | none => do
    i.complain "missing ']'"
    return 2
  | some args => do
    let files ← Piece.see (·.files)
    match Test.evaluate ⟨files, i.cwd⟩ args with
    | .ok b => return if b then 0 else 1
    | .error e => do
      i.complain e
      return 2

mutual

/-- The atoms of a word. Text without quotes splits only where that is said. -/
def expandParts : Nat → Bool → List Part → Eval (List Atom)
  | 0, _, _ => throw (.exit 2)
  | _ + 1, _, [] => return []
  | fuel + 1, splits, part :: rest => do
    let atoms ← match part with
      | .bare text => pure (atomsOf false splits text)
      | .quoted text => pure (atomsOf true false text)
      | .parameter name use isQuoted => expandParameter fuel name use isQuoted
      | .output body isQuoted => do
        let text ← captureOutput fuel body
        pure (atomsOf isQuoted true (withoutLineEnds text))
      | .number parts isQuoted => do
        let text ← expandText fuel parts
        let n ← calculate text
        pure (atomsOf isQuoted true (toString n))
    return atoms ++ (← expandParts fuel splits rest)

def expandParameter : Nat → String → Use → Bool → Eval (List Atom)
  | 0, _, _, _ => throw (.exit 2)
  | fuel + 1, name, use, isQuoted => do
    let s ← get
    let value := s.parameter? name
    let plain := fun (text : String) => atomsOf isQuoted true text
    let all := name = "@" || (name = "*" && !isQuoted)
    let unset := do
      if s.hasFlag 'u' && !all && name ≠ "*" then giveUp s!"{name}: parameter not set"
      else return plain ""
    match use with
    | .bad => giveUp "Bad substitution"
    | .value =>
      if all then
        return (s.args.map plain).intersperse [.gap] |>.flatten
      else match value with
        | some text => return plain text
        | none => unset
    | .length =>
      match value with
      | some text => return plain (toString text.length)
      | none => if s.hasFlag 'u' then unset else return plain "0"
    | .strip fromEnd longest pattern => do
      let items := Pattern.ofGlyphs (glyphsOf (← expandParts fuel false pattern))
      match value with
      | some text =>
        return plain (String.ofList (Pattern.strip items fromEnd longest text.toList))
      | none => unset
    | .fallback kind whenEmpty word =>
      let isMissing := match value with
        | none => true
        | some text => whenEmpty && text.isEmpty
      let present := if all then (s.args.map plain).intersperse [.gap] |>.flatten
        else plain (value.getD "")
      match kind with
      | .alternative =>
        if isMissing then return plain "" else expandParts fuel true word
      | .substitute => if isMissing then expandParts fuel true word else return present
      | .assign =>
        if isMissing then do
          let text ← expandText fuel word
          assign name text
          return plain text
        else return present
      | .fail =>
        if isMissing then do
          let text ← expandText fuel word
          let tail := if whenEmpty then " or null" else ""
          giveUp (s!"{name}: " ++ if word.isEmpty then "parameter not set" ++ tail else text)
        else return present

def expandText : Nat → List Part → Eval String
  | 0, _ => throw (.exit 2)
  | fuel + 1, parts => do
    return textOf (glyphsOf (← expandParts fuel false (withHome (← get) parts)))

/-- Words as fields, with the names of files put in for patterns. -/
def expandWords : Nat → List (List Part) → Eval (List String)
  | 0, _ => throw (.exit 2)
  | _ + 1, [] => return []
  | fuel + 1, word :: rest => do
    let s ← get
    let atoms ← expandParts fuel false (withHome s word)
    let fields := fieldsOf (← get).separators atoms
    let texts ←
      if s.hasFlag 'f' || !(fields.any Pattern.isActive) then pure (fields.map textOf)
      else do
        let files ← see (·.files)
        pure (fields.flatMap (pathsOf files s.cwd))
    return texts ++ (← expandWords fuel rest)

def captureOutput : Nat → Tree → Eval String
  | 0, _ => throw (.exit 2)
  | fuel + 1, t => do
    let (r, w) ← makePipe
    let s ← get
    let child := s.forChild (withStream s.streams 1 (some w))
    let pid ← startChild child (runToEnd fuel child (evalTree fuel true false t))
    closeStream w
    let bytes ← perform (Piece.readAll runFuel r)
    closeStream r
    let ending ← perform (Piece.waitFor pid)
    modify fun s => { s with substituted := ending.status, status := ending.status }
    return Text.ofBytes bytes

/-- Open the streams of redirections, one after the other; false if one of them fails. -/
def openAll : Nat → List Redirect → Eval Bool
  | 0, _ => throw (.exit 2)
  | _ + 1, [] => return true
  | fuel + 1, redirect :: rest => do
    let opened ← match redirect with
      | .here number body => do
        let text ← expandText fuel body
        let stream ← perform (Piece.act fun _ k =>
          let (n, k) := k.addText (Text.toBytes text)
          (k, n))
        modify fun s => { s with streams := withStream s.streams number (some stream) }
        pure true
      | .file number kind target => do
        let text ← expandText fuel target
        if kind = .duplicate then duplicate number text
        else do
          match ← openFile kind text with
          | some stream => do
            modify fun s => { s with streams := withStream s.streams number (some stream) }
            pure true
          | none => pure false
    if opened then openAll fuel rest else return false

/-- Run with redirections, and put the streams back afterwards. -/
def withRedirects : Nat → List Redirect → Eval Nat → Eval Nat
  | 0, _, _ => throw (.exit 2)
  | fuel + 1, redirects, body => do
    let saved := (← get).streams
    let opened ← openAll fuel redirects
    let r ← if opened then outcome body else pure (.ok 2)
    modify fun s => { s with streams := saved }
    resume r

def assignAll : Nat → List (String × List Part) → Eval Unit
  | 0, _ => throw (.exit 2)
  | _ + 1, [] => return ()
  | fuel + 1, (name, parts) :: rest => do
    let value ← expandText fuel parts
    assign name value
    assignAll fuel rest

/-- Run with assignments that hold for a command only. -/
def withAssignments : Nat → List (String × List Part) → Eval Nat → Eval Nat
  | 0, _, _ => throw (.exit 2)
  | fuel + 1, assignments, body => do
    let s ← get
    let saved := assignments.map fun a => (a.1, s.vars.lookup a.1)
    assignAll fuel assignments
    modify fun s => assignments.foldl (fun s a =>
      s.setVariable a.1 ((s.vars.lookup a.1).map fun v => { v with exported := true })) s
    let r ← outcome body
    if !assignments.isEmpty then restoreVariables saved
    resume r

/-- Run a child to its end and give its code; what is to happen at the exit happens. -/
def runToEnd : Nat → State → Eval Nat → Piece Nat
  | 0, _, _ => pure 2
  | fuel + 1, start, body => do
    let (r, s) ← body.run.run start
    let code := match r with
      | .ok code | .error (.exit code) | .error (.leave code) => code
      | .error .failed => 2
      | .error _ => s.status
    match s.traps.lookup 0 with
    | none | some "" => return code
    | some action => do
      let s := { s with status := code, traps := s.traps.filter fun t => t.1 ≠ 0 }
      let (r, _) ← (runScript fuel false { rest := action.toList }).run.run s
      match r with
      | .error (.exit code) => return code
      | _ => return code

/-- Run what is to happen on signals that have come. -/
def runTraps : Nat → Eval Unit
  | 0 => throw (.exit 2)
  | fuel + 1 => do
    let s ← get
    if s.traps.any fun t => t.1 ≠ 0 && t.2 ≠ "" then
      let next ← perform (Piece.act fun pid k =>
        match (k.processes.lookup pid).map (·.pending) with
        | some (n :: rest) => (k.setProcess pid fun p => { p with pending := rest }, some n)
        | _ => (k, none))
      match next.bind fun n => s.traps.lookup n with
      | some action => do
        let _ ← runScript fuel false { rest := action.toList }
        modify fun st => { st with status := s.status }
        runTraps fuel
      | none => return ()
    else return ()

/-- Carry out a command: `isLast` says that nothing follows in this process, `isTested` that a
failure is looked at. -/
def evalTree : Nat → Bool → Bool → Tree → Eval Nat
  | 0, _, _, _ => throw (.exit 2)
  | fuel + 1, isLast, isTested, t => do
    if (← get).hasFlag 'n' then return (← get).status
    match t with
    | .nothing => return (← get).status
    | .simple line assignments words redirects => do
      let code ← runSimple fuel isLast isTested line assignments words redirects
      finish fuel isTested code
    | .pipeline parts => do
      let pids ← startPipeline fuel none parts
      let endings ← pids.mapM fun pid => perform (Piece.waitFor pid)
      let code ← reportPipeline endings
      finish fuel isTested code
    | .negated t => do
      let code ← evalTree fuel false true t
      setStatus (if code = 0 then 1 else 0)
    | .both first second => do
      let code ← evalTree fuel false true first
      if code = 0 then evalTree fuel isLast isTested second else return code
    | .either first second => do
      let code ← evalTree fuel false true first
      if code = 0 then return code else evalTree fuel isLast isTested second
    | .sequence first second => do
      let code ← evalTree fuel (isLast && second.isNothing) isTested first
      if second.isNothing then return code else evalTree fuel isLast isTested second
    | .background t => do
      let s ← get
      let null ← perform (Piece.act fun _ k =>
        let (n, k) := k.addStream .null
        (k, n))
      let child := s.forChild (withStream s.streams 0 (some null))
      let pid ← startChild s (runToEnd fuel child (evalTree fuel true isTested t))
      modify fun s => { s with lastJob := some pid, jobs := s.jobs ++ [pid] }
      setStatus 0
    | .redirected line t redirects => do
      modify fun s => { s with line }
      let code ← withRedirects fuel redirects (evalTree fuel false isTested t)
      setStatus code
    | .subshell line t redirects => do
      modify fun s => { s with line }
      let s ← get
      let body := withRedirects fuel redirects (evalTree fuel redirects.isEmpty isTested t)
      let child := s.forChild s.streams
      let pid ← startChild s (runToEnd fuel child body)
      let code ← Builtin.reportEnding (← perform (Piece.waitFor pid))
      finish fuel isTested code
    | .branch test body otherwise => do
      let code ← evalTree fuel false true test
      if code = 0 then evalTree fuel isLast isTested body
      else match otherwise with
        | .nothing => setStatus 0
        | otherwise => evalTree fuel isLast isTested otherwise
    | .loop whileFalse test body => do
      let code ← runLoop fuel whileFalse isTested test body 0
      setStatus code
    | .each line name words body => do
      modify fun s => { s with line }
      let fields ← expandWords fuel words
      let code ← runEach fuel isTested name fields body 0
      setStatus code
    | .choice line word cases => do
      modify fun s => { s with line }
      let text ← expandText fuel word
      runChoice fuel isLast isTested text cases
    | .define name body => do
      modify fun s =>
        { s with functions := (name, body) :: s.functions.filter fun f => f.1 ≠ name }
      setStatus 0

/-- Note the status of a command, see to signals, and give up if failures are fatal. -/
def finish : Nat → Bool → Nat → Eval Nat
  | 0, _, _ => throw (.exit 2)
  | fuel + 1, isTested, code => do
    let _ ← setStatus code
    runTraps fuel
    if code ≠ 0 && !isTested && (← get).hasFlag 'e' then throw (.exit code)
    return code

/-- Start the parts of a pipeline, each with the output of the one before as its input. -/
def startPipeline : Nat → Option Nat → List Tree → Eval (List Nat)
  | 0, _, _ => throw (.exit 2)
  | _ + 1, _, [] => return []
  | fuel + 1, input, t :: rest => do
    let s ← get
    let pipe ← if rest.isEmpty then pure none else some <$> makePipe
    let given := input.elim s.streams fun r => withStream s.streams 0 (some r)
    let child := s.forChild (pipe.elim given fun p => withStream given 1 (some p.2))
    let pid ← startChild child (runToEnd fuel child (evalTree fuel true false t))
    pipe.forM fun p => closeStream p.2
    input.forM closeStream
    return pid :: (← startPipeline fuel (pipe.map (·.1)) rest)

/-- Run a body as long as a test has the right outcome. -/
def runLoop : Nat → Bool → Bool → Tree → Tree → Nat → Eval Nat
  | 0, _, _, _, _, _ => throw (.exit 2)
  | fuel + 1, whileFalse, isTested, test, body, status => do
    pause
    match ← oneRound (evalTree fuel false true test) with
    | .over _ => return status
    | .next code =>
      if (code = 0) == whileFalse then return status
      else match ← oneRound (evalTree fuel false isTested body) with
        | .over status => return status
        | .next status => runLoop fuel whileFalse isTested test body status

def runEach : Nat → Bool → String → List String → Tree → Nat → Eval Nat
  | 0, _, _, _, _, _ => throw (.exit 2)
  | _ + 1, _, _, [], _, status => return status
  | fuel + 1, isTested, name, field :: rest, body, _ => do
    pause
    assign name field
    match ← oneRound (evalTree fuel false isTested body) with
    | .over status => return status
    | .next status => runEach fuel isTested name rest body status

/-- Run the first case that describes a text. -/
def runChoice : Nat → Bool → Bool → String → List (List (List Part) × Tree) → Eval Nat
  | 0, _, _, _, _ => throw (.exit 2)
  | _ + 1, _, _, _, [] => setStatus 0
  | fuel + 1, isLast, isTested, text, (patterns, body) :: rest => do
    if ← describesAny fuel text patterns then
      match body with
      | .nothing => setStatus 0
      | body => evalTree fuel isLast isTested body
    else runChoice fuel isLast isTested text rest

/-- Whether one of some patterns describes a text. -/
def describesAny : Nat → String → List (List Part) → Eval Bool
  | 0, _, _ => throw (.exit 2)
  | _ + 1, _, [] => return false
  | fuel + 1, text, pattern :: rest => do
    let glyphs := glyphsOf (← expandParts fuel false (withHome (← get) pattern))
    if Pattern.describes (Pattern.ofGlyphs glyphs) text.toList then return true
    else describesAny fuel text rest

/-- A simple command: words are expanded, then streams are opened, then it is run. -/
def runSimple : Nat → Bool → Bool → Nat → List (String × List Part) → List (List Part) →
    List Redirect → Eval Nat
  | 0, _, _, _, _, _, _ => throw (.exit 2)
  | fuel + 1, isLast, isTested, line, assignments, words, redirects => do
    pause
    modify fun s => { s with line, substituted := 0 }
    let fields ← expandWords fuel words
    if (← get).hasFlag 'x' && !fields.isEmpty then emit 2 ("+ " ++ " ".intercalate fields ++ "\n")
    match fields with
    | [] =>
      withRedirects fuel redirects do
        assignAll fuel assignments
        let s ← get
        if s.hasFlag 'x' && !assignments.isEmpty then
          let shown := assignments.map fun a => a.1 ++ "=" ++ (s.value? a.1).getD ""
          emit 2 ("+ " ++ " ".intercalate shown ++ "\n")
        return (← get).substituted
    | "exec" :: args => do
      if ← openAll fuel redirects then
        holdStreams
        match args with
        | [] => do
          assignAll fuel assignments
          return 0
        | name :: args =>
          withAssignments fuel assignments (takeOver fuel name args)
      else throw (.exit 2)
    | name :: args => do
      let saved := (← get).streams
      if ← openAll fuel redirects then
        let r ← outcome (runNamed fuel isLast isTested name args assignments)
        modify fun s => { s with streams := saved }
        resume r
      else do
        modify fun s => { s with streams := saved }
        if Reader.specialBuiltins.contains name then throw (.exit 2) else return 2

/-- A command by its name: a special builtin, a function, another builtin or a program. -/
def runNamed : Nat → Bool → Bool → String → List String → List (String × List Part) → Eval Nat
  | 0, _, _, _, _, _ => throw (.exit 2)
  | fuel + 1, isLast, isTested, name, args, assignments => do
    let isSpecial := Reader.specialBuiltins.contains name
    let s ← get
    match if isSpecial then none else s.functions.lookup name with
    | some body => withAssignments fuel assignments (callFunction fuel isTested body args)
    | none =>
      if isSpecial then do
        assignAll fuel assignments
        runBuiltin fuel isTested name args
      else if Builtin.isBuiltin name then
        withAssignments fuel assignments (runBuiltin fuel isTested name args)
      else withAssignments fuel assignments (runProgram fuel isLast name args)

/-- Run a function with parameters of its own. -/
def callFunction : Nat → Bool → Tree → List String → Eval Nat
  | 0, _, _, _ => throw (.exit 2)
  | fuel + 1, isTested, body, args => do
    let outer ← get
    if maxDepth ≤ outer.hidden.length then
      giveUp s!"Maximum function recursion depth ({maxDepth}) reached"
    set { outer with args, loops := 0, hidden := [] :: outer.hidden }
    let r ← outcome (evalTree fuel false isTested body)
    let frame := (← get).hidden.headD []
    restoreVariables frame
    modify fun s => { s with args := outer.args, loops := outer.loops, hidden := outer.hidden }
    match r with
    | .error (.leave code) => setStatus code
    | r => resume r

def runBuiltin : Nat → Bool → String → List String → Eval Nat
  | 0, _, _, _ => throw (.exit 2)
  | fuel + 1, isTested, name, args => do
    match Builtin.simple? name with
    | some run => do
      let r ← outcome (calledBy name (run args))
      match r with
      | .error .failed =>
        if Reader.specialBuiltins.contains name then throw .failed else return 2
      | r => resume r
    | none =>
      match name with
      | "eval" => do
        let s ← get
        let code ← calledBy name
          (runScript fuel false { rest := (" ".intercalate args).toList, line := s.line })
        return code
      | "." => runFile fuel args
      | "command" => runCommand fuel isTested args
      | _ => describeAll fuel name args

def runFile : Nat → List String → Eval Nat
  | 0, _ => throw (.exit 2)
  | fuel + 1, args => do
    match args with
    | [] => return 0
    | path :: _ => do
      let s ← get
      let p := Text.fromBytes path
      let search := Files.searchPaths (Text.fromBytes ((s.value? "PATH").getD "")) p
      let found ← see fun k => search.find? fun f => k.files.isFile s.cwd f
      let p ← if p.toList.contains '/' then pure p
        else match found with
          | some f => pure f
          | none => calledBy "." (giveUp s!"{path}: not found")
      match ← see fun k => k.files.read s.cwd p with
      | .error e => calledBy "." (giveUp (cannotOpen path e))
      | .ok bytes => do
        let r ← outcome (calledBy path
          (runScript fuel false { rest := (Text.ofBytes bytes).toList }))
        match r with
        | .error (.leave code) => return code
        | r => resume r

/-- Run a command that is no function, or say what it is. -/
def runCommand : Nat → Bool → List String → Eval Nat
  | 0, _, _ => throw (.exit 2)
  | fuel + 1, isTested, args => do
    match args with
    | "-v" :: rest => describeAll fuel "command" (rest.take 1)
    | "-V" :: rest => describeAll fuel "type" (rest.take 1)
    | "-p" :: rest | rest =>
      match rest with
      | [] => return 0
      | name :: args =>
        if Builtin.isBuiltin name then runBuiltin fuel isTested name args
        else runProgram fuel false name args

def describeAll : Nat → String → List String → Eval Nat
  | 0, _, _ => throw (.exit 2)
  | _ + 1, _, [] => return 0
  | fuel + 1, how, name :: rest => do
    let brief := how ≠ "type"
    let s ← get
    let kind? :=
      if (Keyword.ofText? name).isSome then some "shell keyword"
      else if (s.functions.lookup name).isSome then some "shell function"
      else if !Builtin.isBuiltin name then none
      else if Reader.specialBuiltins.contains name then some "special shell builtin"
      else some "shell builtin"
    let code ← match kind? with
      | some kind => do
        emit 1 (name ++ (if brief then "" else s!" is a {kind}") ++ "\n")
        pure 0
      | none =>
        match ← findCommand name with
        | .ok (path, _) => do
          let path := Text.asBytes path
          emit 1 ((if brief then path else s!"{name} is {path}") ++ "\n")
          pure 0
        | .error _ => do
          if !brief then emit 1 s!"{name}: not found\n"
          pure 127
    return max code (← describeAll fuel how rest)

/-- Run a program in a child and wait for it, or in place if nothing follows. -/
def runProgram : Nat → Bool → String → List String → Eval Nat
  | 0, _, _, _ => throw (.exit 2)
  | fuel + 1, isLast, name, args => do
    match ← prepare fuel name args with
    | .error code => return code
    | .ok run => do
      let s ← get
      if isLast && !s.hasTraps then do
        holdStreams
        throw (.exit (← perform run))
      else do
        let pid ← startChild s run
        Builtin.reportEnding (← perform (Piece.waitFor pid))

def takeOver : Nat → String → List String → Eval Nat
  | 0, _, _ => throw (.exit 2)
  | fuel + 1, name, args => do
    match ← calledBy "exec" (prepare fuel name args) with
    | .error code => throw (.exit code)
    | .ok run => do
      modify fun s => { s with traps := s.traps.filter fun t => t.1 ≠ 0 }
      throw (.exit (← perform run))

/-- What a program will do, or the code that says why it cannot be run. -/
def prepare : Nat → String → List String → Eval (Except Nat (Piece Nat))
  | 0, _, _ => throw (.exit 2)
  | fuel + 1, name, args => do
    let s ← get
    let i := s.invocation name args
    match ← findCommand name with
    | .ok (_, executable) => return .ok (execute fuel executable i)
    | .error e =>
      if e = Files.notExecutable then
        -- a script that names no interpreter is run by the shell
        return .ok (runShell fuel { i with args := name :: args })
      else if e = Files.permissionDenied && name.toList.contains '/' then do
        complain s!"{name}: Permission denied"
        return .error 126
      else do
        complain s!"{name}: not found"
        return .error 127

def execute : Nat → Executable → Invocation → Piece Nat
  | 0, _, _ => pure 2
  | fuel + 1, executable, i => do
    match executable with
    | .program name =>
      match name with
      | "sh" => runShell fuel i
      | "env" => runInEnvironment fuel i
      | "nohup" | "nice" | "setsid" => runApart fuel name i
      | "timeout" => runInTime fuel i
      | "test" => runTest false i
      | "[" => runTest true i
      | name =>
        match Tool.table.lookup name with
        | some tool => tool i
        | none => pure 0
    | .script interpreter option path => do
      let inner := { i with
        name := Text.asBytes interpreter
        args := option.toList.map Text.asBytes ++ Text.asBytes path :: i.args }
      match ← Piece.see fun k => k.files.executable i.cwd interpreter with
      | .ok executable => execute fuel executable inner
      | .error _ => do
        return 127

/-- Run a program in a changed environment, or show the environment. -/
def runInEnvironment : Nat → Invocation → Piece Nat
  | 0, _ => pure 2
  | fuel + 1, i => do
    let (start, args) := match i.args with
      | "-i" :: rest | "-" :: rest => ([], rest)
      | args => (i.environment, args)
    let settings := args.takeWhile fun a => a.toList.contains '='
    let environment := settings.foldl (fun env a =>
      let (name, value) := Builtin.binding a
      env.filter (fun e => e.1 ≠ name) ++ [(name, value.getD "")]) start
    match args.drop settings.length with
    | [] => do
      i.print (Tool.unlines (environment.map fun e => s!"{e.1}={e.2}"))
      return 0
    | command => runOther fuel { i with environment } (fun name => s!"'{name}'") command

/-- Go on as another program, found as the environment says. -/
def runOther : Nat → Invocation → (String → String) → List String → Piece Nat
  | 0, _, _, _ => pure 2
  | _ + 1, _, _, [] => pure 125
  | fuel + 1, i, what, name :: args => do
    let n := Text.fromBytes name
    let path := Text.fromBytes ((i.environment.lookup "PATH").getD "/usr/bin:/bin")
    let paths := if n.toList.contains '/' then [n] else Files.searchPaths path n
    match ← Piece.see fun k => k.files.firstExecutable i.cwd paths with
    | .ok (_, executable) => execute fuel executable { i with name, args }
    | .error e => do
      i.complain s!"{what name}: {Invocation.reason e}"
      return if e = .notFound then 127 else 126

/-- Go on as another program that hangups leave alone, or in a group of its own. -/
def runApart : Nat → String → Invocation → Piece Nat
  | 0, _, _ => pure 2
  | fuel + 1, name, i => do
    let command := i.args.dropWhile fun a => a.startsWith "-"
    let failing := fun (command : String) =>
      if name = "setsid" then s!"failed to execute {command}"
      else if name = "nohup" then s!"failed to run command '{command}'"
      else s!"'{command}'"
    Piece.act fun pid k =>
      (k.setProcess pid fun p =>
        if name = "setsid" then { p with group := pid }
        else if name = "nohup" then { p with ignored := Signal.hangup :: p.ignored }
        else p, ())
    runOther fuel i failing command

/-- Run another program, but end it when its time is up. -/
def runInTime : Nat → Invocation → Piece Nat
  | 0, _ => pure 2
  | fuel + 1, i => do
    match i.args.dropWhile fun a => a.startsWith "-" with
    | [] | [_] => do
      i.complain "missing operand\nTry 'timeout --help' for more information."
      return 125
    | time :: command =>
      match Tool.interval? time with
      | none => do
        i.complain
          s!"invalid time interval '{time}'\nTry 'timeout --help' for more information."
        return 125
      | some nanos => do
        Piece.act fun pid k => (k.setProcess pid fun p => { p with group := pid }, ())
        let failing := fun (command : String) => s!"failed to run command '{command}'"
        let pid ← Piece.fork i.holds (runOther fuel i failing command .exit)
        let timer ← Piece.fork [] (Piece.sleep nanos fun _ =>
          .act fun _ k => (k.signal pid Signal.terminate, .exit 0))
        let ending ← Piece.waitFor pid
        let expired ← Piece.see fun k => nanos ≠ 0 && !k.isRunning timer
        Piece.act fun _ k => ((k.signal timer Kernel.sigKill).forget timer, ())
        return if expired then 124 else ending.status

/-- Run commands one after the other as they are read. `mayEnd` says that the last one may take
the process over. -/
def runScript : Nat → Bool → Reader → Eval Nat
  | 0, _, _ => throw (.exit 2)
  | fuel + 1, mayEnd, r => do
    match r.next with
    | .error trouble => do
      modify fun s => { s with line := trouble.line }
      giveUp s!"Syntax error: {trouble.message}"
    | .ok (.finished, _) => return (← get).status
    | .ok (.command t, r) => do
      let atEnd := match r.last with | .endOfFile => r.pushed | _ => false
      let _ ← evalTree fuel (mayEnd && atEnd) false t
      runScript fuel mayEnd r

/-- The shell as a program: a command in its arguments, a script, or its input. -/
def runShell : Nat → Invocation → Piece Nat
  | 0, _ => pure 2
  | fuel + 1, i => do
    let (letters, operands) := shellOptions i.args
    let pid ← Piece.ownPid
    let imported := i.environment.filterMap fun e =>
      if isName e.1 && e.1 ≠ "IFS" then some (e.1, ({ value := e.2, exported := true } : Variable))
      else none
    let start : State :=
      { name := i.name, dir := i.dir, streams := i.streams, pid, vars := imported
        flags := letters.filter fun c => c ≠ 'c' && c ≠ 's' }
    let parent ← Piece.see fun k => ((k.processes.lookup pid).map (·.parent)).getD 0
    let start := start.setVariable "PPID" (some { value := toString parent })
    let start := if (imported.lookup "PATH").isSome then start
      else start.setVariable "PATH" (some { value := startingPath })
    let isExported := (imported.lookup "PWD").isSome
    let start := start.setVariable "PWD" (some { value := i.dir, exported := isExported })
    let failing := fun (message : String) => do
      let _ ← writeText i.streams 2 s!"{i.name}: 0: {message}\n"
      return 2
    if letters.contains 'c' then
      match operands with
      | [] => failing "-c requires an argument"
      | text :: rest =>
        let start := { start with name := rest.headD i.name, args := rest.tail }
        runToEnd fuel start (runScript fuel true { rest := text.toList })
    else match operands with
      | path :: args => do
        match ← Piece.see fun k => k.files.read i.cwd (Text.fromBytes path) with
        | .error e => failing (cannotOpen path e)
        | .ok bytes =>
          let start := { start with name := path, args }
          runToEnd fuel start (runScript fuel false { rest := (Text.ofBytes bytes).toList })
      | [] => do
        let text ← i.readInput
        runToEnd fuel start (runScript fuel false { rest := text.toList })

end

end Shell

end Foundry
