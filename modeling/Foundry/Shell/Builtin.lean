import Foundry.Shell.Signal
import Foundry.Shell.State
import Foundry.Shell.Test
import Foundry.Tool.Text

/-!
# Builtin commands

Commands that the shell carries out itself and that run no other command. Each gives
its status. A mistake in a special one makes the shell give up, in another one it is a
status of two.
-/

namespace Foundry

variable (s name : String) (args : List String)

namespace Shell

variable (args : List String)

namespace Builtin

variable (args : List String)

def natural? : Option Nat :=
  if !s.isEmpty && s.toList.all Char.isDigit then some (Printf.number s.toList) else none

/-- A number that has to be one. -/
def numberIn : Eval Nat :=
  match natural? s with
  | some n => pure n
  | none => giveUp s!"Illegal number: {s}"

/-- Print the arguments with escapes carried out. -/
def echo : Eval Nat := do
  let (newline, args) := match args with
    | "-n" :: rest => (false, rest)
    | args => (true, args)
  let text := " ".intercalate args
  let (cs, stopped) := Printf.unescape true (text.length + 1) text.toList
  emit 1 (String.ofList cs ++ if newline && !stopped then "\n" else "")
  return 0

def printf (args : List String) : Eval Nat := do
  match if args.head? = some "--" then args.tail else args with
  | [] => refuse "usage: printf format [arg ...]"
  | format :: args => do
    let printed := Printf.print format args
    for (arg, flaw) in printed.refused do
      complain (match flaw with
        | .notNumeric => s!"{arg}: expected numeric value"
        | .partly => s!"{arg}: not completely converted"
        | .outOfRange => s!"{arg}: Numerical result out of range")
    match printed.broken with
    | some "" => complain "missing format character"
    | some conversion => complain s!"{conversion}: invalid directive"
    | none => pure ()
    emit 1 printed.text
    return printed.code

def test : Eval Nat := do
  let s ← get
  let args? := if name = "[" then
      if args.getLast? = some "]" then some args.dropLast else none
    else some args
  match args? with
  | none => refuse "missing ]"
  | some args =>
    let files ← see (·.files)
    match Test.evaluate ⟨files, s.cwd⟩ args with
    | .ok b => return if b then 0 else 1
    | .error e => refuse e

/-- A path without what says nothing, and without steps up. -/
def normalPath (path : String) : String :=
  let names := (Path.names path).foldl (fun done name =>
    if name = "." then done else if name = ".." then done.dropLast else done ++ [name]) []
  "/" ++ "/".intercalate names

def cd (args : List String) : Eval Nat := do
  let s ← get
  let args := args.filter fun a => a ≠ "-L" && a ≠ "-P" && a ≠ "--"
  let (target, shows) := match args with
    | [] => ((s.value? "HOME").getD "", false)
    | "-" :: _ => ((s.value? "OLDPWD").getD "", true)
    | dir :: _ => (dir, false)
  if target.isEmpty then return 0
  else
    let path := normalPath (Path.join s.dir target)
    if ← see fun k => k.files.isDir s.cwd (Text.fromBytes (Path.join s.dir target)) then do
      let exported := fun (name : String) => (s.vars.lookup name).any (·.exported)
      modify fun st =>
        ((st.setVariable "OLDPWD"
          (some { value := s.dir, exported := exported "OLDPWD" })).setVariable
          "PWD" (some { value := path, exported := exported "PWD" }))
      modify fun st => { st with dir := path }
      if shows then emit 1 (path ++ "\n")
      return 0
    else refuse s!"can't cd to {target}"

def pwd : Eval Nat := do
  emit 1 ((← get).dir ++ "\n")
  return 0

def shift (args : List String) : Eval Nat := do
  let n ← match args with
    | a :: _ => numberIn a
    | [] => pure 1
  let s ← get
  if s.args.length < n then giveUp "can't shift that many"
  else do
    set { s with args := s.args.drop n }
    return 0

/-- The name and perhaps the value in an argument such as `x=1`. -/
def binding (arg : String) : String × Option String :=
  let name := arg.toList.takeWhile (· ≠ '=')
  match arg.toList.drop name.length with
  | _ :: value => (String.ofList name, some (String.ofList value))
  | [] => (String.ofList name, none)

/-- A text that reads back as itself. -/
def quoted : String := "'" ++ "'\"'\"'".intercalate (s.splitOn "'") ++ "'"

/-- Mark variables, perhaps after giving them values. -/
def marking (command : String) (mark : Variable → Variable) (isMarked : Variable → Bool)
    (args : List String) : Eval Nat := do
  let args := args.filter fun a => a ≠ "--"
  if args.isEmpty || args = ["-p"] then do
    let marked := ((← get).vars.filter fun v => isMarked v.2).mergeSort fun a b => a.1 ≤ b.1
    for v in marked do
      emit 1 s!"{command} {v.1}={quoted v.2.value}\n"
    return 0
  else do
    for arg in args do
      let (name, value) := binding arg
      if !isName name then giveUp s!"{name}: bad variable name"
      match value with
      | some value => assign name value
      | none => pure ()
      modify fun s =>
        let old := (s.vars.lookup name).getD { value := "" }
        s.setVariable name (some (mark old))
    return 0

def unset : Eval Nat := do
  let functions := args.head? = some "-f"
  for name in args.filter fun a => a ≠ "-v" && a ≠ "-f" do
    if !functions && !isName name then giveUp s!"{name}: bad variable name"
    if functions then
      modify fun s => { s with functions := s.functions.filter fun f => f.1 ≠ name }
    else if ((← get).vars.lookup name).any (·.isReadOnly) then
      giveUp s!"{name}: is read only"
    else modify fun s => s.setVariable name none
  return 0

/-- Hide variables until the function ends. -/
def localize : Eval Nat := do
  for arg in args do
    let (name, value) := binding arg
    let s ← get
    match s.hidden with
    | frame :: outer =>
      if (frame.lookup name).isNone then
        set { s with hidden := ((name, s.vars.lookup name) :: frame) :: outer }
    | [] => giveUp "not in a function"
    match value with
    | some value => assign name value
    | none => pure ()
  return 0

def optionNames : List (String × Char) :=
  [("errexit", 'e'), ("noglob", 'f'), ("nounset", 'u'), ("xtrace", 'x'), ("noexec", 'n'),
   ("allexport", 'a'), ("verbose", 'v'), ("noclobber", 'C'), ("notify", 'b'), ("monitor", 'm'),
   ("interactive", 'i'), ("stdin", 's'), ("vi", 'V'), ("emacs", 'E'), ("ignoreeof", 'I')]

def setFlag (on : Bool) (c : Char) : Eval Unit :=
  modify fun s =>
    { s with flags := if on then c :: s.flags.filter (· ≠ c) else s.flags.filter (· ≠ c) }

def setOptions : List String → Eval Nat
  | [] => return 0
  | arg :: rest => do
    match arg.toList with
    | ['-', '-'] => do
      modify fun s => { s with args := rest }
      return 0
    | sign :: 'o' :: [] =>
      if sign == '-' || sign == '+' then
        match rest with
        | name :: rest =>
          match optionNames.lookup name with
          | some c => do
            setFlag (sign == '-') c
            setOptions rest
          | none => giveUp s!"Illegal option {String.ofList [sign]}o {name}"
        | [] => return 0
      else do
        modify fun s => { s with args := arg :: rest }
        return 0
    | sign :: letters =>
      if (sign == '-' || sign == '+') && !letters.isEmpty then do
        for c in letters do
          if !(optionNames.any fun o => o.2 == c) then
            giveUp s!"Illegal option {String.ofList [sign, c]}"
          setFlag (sign == '-') c
        setOptions rest
      else do
        modify fun s => { s with args := arg :: rest }
        return 0
    | [] => do
      modify fun s => { s with args := arg :: rest }
      return 0

def showVariables : Eval Nat := do
  for v in (← get).vars.mergeSort fun a b => a.1 ≤ b.1 do
    emit 1 s!"{v.1}={quoted v.2.value}\n"
  return 0

/-! ## Reading -/

/-- A line of the standard input, without its end, and whether it had one. Only what belongs to
the line is taken. -/
def readLine (stream : Nat) : Nat → Piece (String × Bool)
  | 0 => pure ("", false)
  | fuel + 1 => do
    let part ← Piece.await fun _ kernel =>
      (kernel.peek stream).map fun bytes =>
        let text := Text.ofBytes bytes
        let line := text.toList.takeWhile (· ≠ '\n')
        let ended : Bool := line.length < text.length
        let count := if ended then line.length + 1 else line.length
        (kernel.advance stream count, (String.ofList line, ended))
    if part.2 || part.1.isEmpty then return part
    else
      let (more, ended) ← readLine stream fuel
      return (part.1 ++ more, ended)

/-- A line with its backslashes carried out, and whether one hides its end. -/
def unhide : List Char → List (Char × Bool) × Bool
  | [] => ([], false)
  | ['\\'] => ([], true)
  | '\\' :: c :: rest =>
    let (cs, joined) := unhide rest
    ((c, true) :: cs, joined)
  | c :: rest =>
    let (cs, joined) := unhide rest
    ((c, false) :: cs, joined)

/-- Lines up to one whose end is not hidden. -/
def readJoined (raw : Bool) (stream : Nat) : Nat → Piece (List (Char × Bool) × Bool)
  | 0 => pure ([], false)
  | fuel + 1 => do
    let (line, ended) ← readLine stream 1000000
    if raw then return (line.toList.map fun c => (c, false), ended)
    else
      let (cs, joined) := unhide line.toList
      if joined && ended then
        let (more, ended) ← readJoined raw stream fuel
        return (cs ++ more, ended)
      else return (cs, ended)

/-- Divide a line among names: each gets a field, and the last one all the rest. -/
def distribute (separators : List Char) : List String → List (Char × Bool) → List (String × String)
  | [], _ => []
  | name :: names, cs =>
    let isSeparator := fun (g : Char × Bool) => !g.2 && separators.contains g.1
    let isGap := fun (g : Char × Bool) => isSeparator g && isBlank g.1
    let cs := cs.dropWhile isGap
    let text := fun (gs : List (Char × Bool)) => String.ofList (gs.map (·.1))
    match names with
    | [] => [(name, text (cs.reverse.dropWhile isGap).reverse)]
    | _ =>
      let field := cs.takeWhile fun g => !isSeparator g
      let rest := (cs.drop field.length).dropWhile isGap
      let rest := match rest with
        | g :: more => if isSeparator g then more else rest
        | [] => []
      (name, text field) :: distribute separators names rest

def read : Eval Nat := do
  let (os, names) := Tool.optionsOf ['p'] args
  let s ← get
  if names.isEmpty then refuse "arg count"
  else if names.any fun n => !isName n then
    refuse s!"{(names.find? fun n => !isName n).getD default}: bad variable name"
  else match s.streams.lookup 0 with
    | none => return 1
    | some stream => do
      let (cs, ended) ← perform (readJoined (Tool.hasOption os 'r') stream 1000000)
      for b in distribute s.separators names cs do
        assign b.1 b.2
      return if ended then 0 else 1

/-! ## Signals and jobs -/

/-- Let the kernel know which signals are ignored and which are caught. -/
def announceTraps : Eval Unit := do
  let traps := (← get).traps.filter fun t => t.1 ≠ 0
  let ignored := (traps.filter fun t => t.2.isEmpty).map (·.1)
  let caught := (traps.filter fun t => !t.2.isEmpty).map (·.1)
  perform (Piece.act fun pid k =>
    (k.setProcess pid fun p => { p with ignored, caught }, ()))

def trap (args : List String) : Eval Nat := do
  let args := if args.head? = some "--" then args.tail else args
  match args with
  | [] => do
    for t in (← get).traps.mergeSort fun a b => a.1 ≤ b.1 do
      emit 1 s!"trap -- {quoted t.2} {Signal.name t.1}\n"
    return 0
  | first :: rest => do
    -- a number in front, or a single operand, takes actions away
    let (action, signals) := if rest.isEmpty || (natural? first).isSome then
        (none, args)
      else (if first = "-" then none else some first, rest)
    let mut code := 0
    for name in signals do
      match Signal.number? name with
      | none => do
        emit 2 s!"trap: {name}: bad trap\n"
        code := 1
      | some n =>
        modify fun s =>
          let others := s.traps.filter fun t => t.1 ≠ n
          { s with traps := match action with
              | some action => others ++ [(n, action)]
              | none => others }
    announceTraps
    return code

/-- The signal and the processes in the arguments of `kill`. -/
def killTargets : Except String (Nat × List String) :=
  let named := fun (s : String) (rest : List String) =>
    match Signal.number? s with
    | some n => Except.ok (n, if rest.head? = some "--" then rest.tail else rest)
    | none => .error s!"invalid signal number or name: {s}"
  match args with
  | ["-s"] => .error "No arg for -s option"
  | "-s" :: name :: rest => named name rest
  | "--" :: rest => .ok (15, rest)
  | arg :: rest =>
    match arg.toList with
    | '-' :: c :: name =>
      match Signal.number? (String.ofList (c :: name)) with
      | some n => .ok (n, if rest.head? = some "--" then rest.tail else rest)
      | none => .error s!"Illegal option -{String.ofList [c]}"
    | _ => .ok (15, args)
  | [] => .ok (15, [])

/-- Send a signal to what a number names. -/
def sendSignal (k : Kernel) (own : Nat) (target : Int) (n : Nat) : Option Kernel :=
  let ownGroup := match k.processes.lookup own with
    | some p => p.group
    | none => own
  if !k.canSignal target then none
  else if n = 0 then some k
  else if 0 < target then some (k.signal target.toNat n)
  else if target = 0 then some (k.signalGroup ownGroup n)
  else some (k.signalGroup target.natAbs n)

/-- The signal that an exit status tells of, or all signals. -/
def listSignals : Eval Nat := do
  match args with
  | [] => do
    emit 1 ("0\n" ++ String.join ((Signal.names.drop 1).map fun e => e.1 ++ "\n"))
    return 0
  | arg :: _ =>
    match natural? arg with
    | none => refuse s!"Illegal number: {arg}"
    | some n =>
      let signal := if 128 < n then n - 128 else n
      if signal = 0 || 64 < signal then
        refuse s!"invalid signal number or exit status: {arg}"
      else do
        emit 1 (Signal.name signal ++ "\n")
        return 0

def kill (args : List String) : Eval Nat := do
  if args.head? = some "-l" then listSignals args.tail
  else match killTargets args with
    | .error message => refuse message
    | .ok (_, []) =>
      refuse "Usage: kill [-s sigspec | -signum | -sigspec] [pid | job]... or\nkill -l [exitstatus]"
    | .ok (n, targets) => do
      let mut code := 0
      for target in targets do
        match Tool.integer? target with
        | none => do
          complain s!"Illegal number: {target}"
          code := 2
        | some pid => do
          let sent ← perform (Piece.act fun own k =>
            match sendSignal k own pid n with
            | some k => (k, true)
            | none => (k, false))
          if !sent then
            complain "No such process\n"
            code := 1
      return code

/-- Wait for a process, or until a signal is caught; the code tells which. -/
def waitFor (pid : Nat) : Piece (Ending ⊕ Nat) :=
  Piece.await fun own kernel =>
    match (kernel.processes.lookup pid).map (·.ending) with
    | some (some ending) => some (kernel.forget pid, .inl ending)
    | none => some (kernel, .inl (.exited 127))
    | some none =>
      match (kernel.processes.lookup own).bind fun p => p.pending.head? with
      | some n => some (kernel, .inr n)
      | none => none

/-- Say how a process that was waited for has ended, if that is worth saying. -/
def reportEnding (ending : Ending) : Eval Nat := do
  match ending with
  | .killed n =>
    match Signal.obituary? n with
    | some text => emit 2 (text ++ "\n")
    | none => pure ()
  | .exited _ => pure ()
  return ending.status

def waitAll : List Nat → Eval Nat
  | [] => return 0
  | pid :: rest => do
    match ← perform (waitFor pid) with
    | .inl _ => do
      modify fun s => { s with jobs := s.jobs.filter (· ≠ pid) }
      waitAll rest
    | .inr n => return 128 + n

/-- Wait for the named processes; the status is that of the last one. -/
def waitEach (code : Nat) : List String → Eval Nat
  | [] => return code
  | arg :: rest => do
    match natural? arg with
    | none => refuse s!"Illegal number: {arg}"
    | some pid =>
      if (← get).jobs.contains pid then
        match ← perform (waitFor pid) with
        | .inl ending => do
          modify fun s => { s with jobs := s.jobs.filter (· ≠ pid) }
          waitEach (← reportEnding ending) rest
        | .inr n => return 128 + n
      else waitEach 127 rest

def wait : Eval Nat := do
  match args with
  | [] => waitAll (← get).jobs
  | args => waitEach 0 args

/-! ## Jumps -/

def exit (args : List String) : Eval Nat := do
  match args with
  | a :: _ => throw (.exit (← numberIn a))
  | [] => throw (.exit (← get).status)

def leave (args : List String) : Eval Nat := do
  match args with
  | a :: _ => throw (.leave (← numberIn a))
  | [] => throw (.leave (← get).status)

/-- Leave loops, or start them again. -/
def leaveLoops (jump : Nat → Jump) (args : List String) : Eval Nat := do
  let n ← match args with
    | a :: _ => numberIn a
    | [] => pure 1
  let s ← get
  if n = 0 then giveUp "Illegal number: 0"
  else if s.loops = 0 then return 0
  else throw (jump (min n s.loops))

/-- Builtins that run no other command. -/
def simple? : Option (List String → Eval Nat) :=
  match name with
  | ":" | "true" => some fun _ => pure 0
  | "false" => some fun _ => pure 1
  | "echo" => some echo
  | "printf" => some printf
  | "test" => some (test name)
  | "[" => some (test name)
  | "cd" | "chdir" => some cd
  | "pwd" => some fun _ => pwd
  | "shift" => some shift
  | "export" => some (marking name (fun v => { v with exported := true }) (·.exported))
  | "readonly" => some (marking name (fun v => { v with isReadOnly := true }) (·.isReadOnly))
  | "unset" => some unset
  | "local" => some localize
  | "set" => some fun args => if args.isEmpty then showVariables else setOptions args
  | "read" => some read
  | "trap" => some trap
  | "kill" => some kill
  | "wait" => some wait
  | "exit" => some exit
  | "return" => some leave
  | "break" => some (leaveLoops .stop)
  | "continue" => some (leaveLoops .again)
  | "umask" => some fun args => do
    if args.isEmpty then emit 1 "0022\n"
    return 0
  | "ulimit" => some fun _ => do
    emit 1 "unlimited\n"
    return 0
  | "hash" | "alias" | "unalias" | "jobs" => some fun _ => pure 0
  | "times" => some fun _ => do
    emit 1 "0m0.000000s 0m0.000000s\n0m0.000000s 0m0.000000s\n"
    return 0
  | _ => none

def isBuiltin : Bool :=
  (simple? name).isSome || ["eval", ".", "exec", "command", "type"].contains name

end Builtin

end Shell

end Foundry
