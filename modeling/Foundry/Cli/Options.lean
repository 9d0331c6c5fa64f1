import Foundry.Number.Literal

/-!
# Options on a command line

A command has options, perhaps one operand, and perhaps commands of its own. Arguments
are read from left to right; the first mistake decides. A value that stands apart from
its option is looked at only when the next option is carried out or the command ends,
so that mistakes of a command within come first.
-/

namespace Foundry

namespace Cli

inductive ValueKind where
  | text
  /-- A path, which is not empty. -/
  | path
  | number
  | choice (names : List String)
deriving DecidableEq, Repr, Inhabited

inductive OptionKind where
  | flag
  /-- May be repeated, and counts. -/
  | count
  | value (kind : ValueKind)
  | help
  | version
deriving DecidableEq, Repr, Inhabited

structure Opt where
  short : Option Char
  long : String
  kind : OptionKind
deriving DecidableEq, Repr, Inhabited

/-- A command and the commands within it. -/
inductive Command where
  | mk (name : String) (options : List Opt) (operand : Option (String × ValueKind))
      (inner : List Command) (needsInner : Bool)

namespace Command

def name : Command → String
  | mk name .. => name

def options : Command → List Opt
  | mk _ options .. => options

def operand : Command → Option (String × ValueKind)
  | mk _ _ operand .. => operand

def inner : Command → List Command
  | mk _ _ _ inner _ => inner

def needsInner : Command → Bool
  | mk _ _ _ _ needsInner => needsInner

end Command

inductive ArgumentError where
  /-- Nothing was said where a command is needed. -/
  | nothingSaid
  | missingCommand
  | unknownCommand
  | unknownArgument
  /-- A value is missing, empty or none of the choices. -/
  | invalidValue
  | notANumber
  | repeated
  /-- A flag got a value. -/
  | tooManyValues
  | help
  /-- The version was asked for, of the command that these names lead to. -/
  | version (path : List String)
deriving DecidableEq, Repr, Inhabited

inductive Source where
  | environment
  | commandLine
deriving DecidableEq, Repr, Inhabited

/-- What was said for an option: its value, or how often it came. -/
structure Given where
  text : String := ""
  times : Nat := 1
  source : Source := .commandLine
deriving DecidableEq, Repr, Inhabited

/-- What was said at one command. -/
structure Level where
  name : String
  given : List (String × Given) := []
deriving DecidableEq, Repr, Inhabited

def ValueKind.check (kind : ValueKind) (text : String) : Except ArgumentError Unit :=
  match kind with
  | .text => .ok ()
  | .path => if text.isEmpty then .error .invalidValue else .ok ()
  | .number => if (Decimal.parse? text).isSome then .ok () else .error .notANumber
  | .choice names => if names.contains text then .ok () else .error .invalidValue

/-! ## One command -/

/-- An option or operand whose value has not been looked at yet. -/
structure Pending where
  name : String
  kind : ValueKind
  value : Option String := none
deriving DecidableEq, Repr, Inhabited

/-- How far the arguments of a command have been read. -/
structure Progress where
  given : List (String × Given) := []
  pending : Option Pending := none
  /-- The operand has been taken. -/
  hasOperand : Bool := false
  /-- Only operands can follow. -/
  trailing : Bool := false
deriving DecidableEq, Repr, Inhabited

def maxCount : Nat := 255

namespace Progress

variable (p : Progress)

def put (name : String) (g : Given) : Progress :=
  { p with given := (p.given.filter fun e => e.1 ≠ name) ++ [(name, g)] }

/-- Note a value. A second one for the same option is a mistake, before its own. -/
def note (name : String) (kind : ValueKind) (text : String) : Except ArgumentError Progress := do
  if (p.given.lookup name).isSome then .error .repeated
  else
    kind.check text
    .ok (p.put name { text })

def resolve : Except ArgumentError Progress :=
  match p.pending with
  | none => .ok p
  | some { name, kind, value } =>
    match value with
    | none => .error .invalidValue
    | some text => ({ p with pending := none }).note name kind text

/-- Carry out an option that takes no value. -/
def raise (path : List String) (o : Opt) : Except ArgumentError Progress := do
  let p ← p.resolve
  match o.kind with
  | .help => .error .help
  | .version => .error (.version path)
  | .count =>
    let times := match p.given.lookup o.long with
      | some g => g.times + 1
      | none => 1
    .ok (p.put o.long { times := min times maxCount })
  | _ => if (p.given.lookup o.long).isSome then .error .repeated else .ok (p.put o.long {})

/-- An option that takes a value, which may be attached. -/
def expect (o : Opt) (kind : ValueKind) (attached : Option String) :
    Except ArgumentError Progress := do
  let p ← p.resolve
  match attached with
  | some text => p.note o.long kind text
  | none => .ok { p with pending := some { name := o.long, kind } }

def awaitsValue : Bool :=
  match p.pending with
  | some { value := none, .. } => true
  | _ => false

/-- Letters after a single dash. -/
def cluster (c : Command) (path : List String) (p : Progress) :
    List Char → Except ArgumentError Progress
  | [] => .ok p
  | letter :: rest =>
    match c.options.find? fun o => o.short == some letter with
    | none => .error .unknownArgument
    | some o =>
      match o.kind with
      | .value kind =>
        let attached := match rest with
          | [] => none
          | '=' :: value => some (String.ofList value)
          | value => some (String.ofList value)
        p.expect o kind attached
      | _ => do
        let p ← p.raise path o
        cluster c path p rest

variable (c : Command)

/-- A word after two dashes, perhaps with a value attached. -/
def long (path : List String) (p : Progress) (body : List Char) : Except ArgumentError Progress :=
  let name := String.ofList (body.takeWhile (· ≠ '='))
  let attached := match body.dropWhile (· ≠ '=') with
    | _ :: value => some (String.ofList value)
    | [] => none
  match c.options.find? fun o => o.long = name with
  | none => .error .unknownArgument
  | some o =>
    match o.kind, attached with
    | .value kind, attached => p.expect o kind attached
    | _, some _ => .error .tooManyValues
    | _, none => p.raise path o

/-- An argument that is no option: the operand, or a mistake. -/
def operand (arg : String) : Except ArgumentError Progress :=
  match if p.hasOperand then none else c.operand with
  | some (name, kind) => do
    let p ← p.resolve
    .ok { p with pending := some { name, kind, value := some arg }, hasOperand := true }
  | none =>
    let isCommand := c.inner.any fun i => i.name = arg
    if c.inner.isEmpty || (p.trailing && (isCommand || arg = "help")) then .error .unknownArgument
    else .error .unknownCommand

/-- What was said at a command, once all is read. -/
def finish (environment : List (String × String)) (hasInner : Bool) (p : Progress) :
    Except ArgumentError Level := do
  let p ← p.resolve
  let p ← environment.foldlM (fun (p : Progress) e =>
    match c.options.find? fun o => o.long = e.1 with
    | some { kind := .value kind, .. } =>
      if (p.given.lookup e.1).isSome then .ok p
      else do
        kind.check e.2
        .ok (p.put e.1 { text := e.2, source := .environment })
    | _ => .ok p) p
  if c.needsInner && !hasInner then
    .error (if p.given.isEmpty then .nothingSaid else .missingCommand)
  else .ok { name := c.name, given := p.given }

end Progress

/-- The command that names lead to has to exist for its help to be shown. -/
def helpFor (c : Command) : List String → ArgumentError
  | [] => .help
  | name :: rest =>
    match c.inner.find? fun i => i.name = name with
    | some i => helpFor i rest
    | none => if name = "help" && rest.isEmpty && !c.inner.isEmpty then .help else .unknownCommand

/-- Read the arguments of a command and of those within. Values of the environment stand in for
options that are not given. The outermost level comes first. -/
def readArguments (environment : List (String × String)) (path : List String) (c : Command)
    (p : Progress) : List String → Except ArgumentError (List Level)
  | [] => do
    let level ← p.finish c environment false
    .ok [level]
  | arg :: rest =>
    if p.trailing then do
      readArguments environment path c (← p.operand c arg) rest
    else
      match if p.awaitsValue then none else c.inner.find? fun i => i.name = arg with
      | some i => do
        let levels ← readArguments environment (path ++ [i.name]) i {} rest
        let level ← p.finish c environment true
        .ok (level :: levels)
      | none =>
        if !p.awaitsValue && arg = "help" && !c.inner.isEmpty then .error (helpFor c rest)
        else match arg.toList with
          | ['-', '-'] => readArguments environment path c { p with trailing := true } rest
          | '-' :: '-' :: body => do
            readArguments environment path c (← p.long c path body) rest
          | '-' :: letter :: letters => do
            readArguments environment path c (← p.cluster c path (letter :: letters)) rest
          | _ =>
            match p.pending with
            | some ({ value := none, .. } : Pending) =>
              let pending := p.pending.map fun (q : Pending) => { q with value := some arg }
              readArguments environment path c { p with pending } rest
            | _ => do
              readArguments environment path c (← p.operand c arg) rest

end Cli

end Foundry
