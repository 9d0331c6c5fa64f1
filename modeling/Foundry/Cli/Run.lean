import Foundry.Address
import Foundry.Cli.Commands
import Foundry.Machine.Launch
import Foundry.Machine.Schedule

/-!
# The program as a whole

A run of the program on a machine, from its arguments to what it printed and its exit
code.
-/

namespace Foundry

namespace Cli

structure Start where
  args : List String
  environment : Environment := []
  stdin : ByteArray := .empty
  /-- Whether warnings are shown. -/
  logs : Bool := false

structure Transcript where
  exit : Nat
  stdout : String := ""
  stderr : String := ""
deriving DecidableEq, Repr, Inhabited

def Opt.shown (o : Opt) : String :=
  match o.short with
  | some c => s!"-{c}, --{o.long}"
  | none => s!"--{o.long}"

def usage (c : Command) : String :=
  let names := (c.inner.map fun i => "  " ++ i.name ++ "\n") ++
    c.options.map fun o => "  " ++ o.shown ++ "\n"
  s!"Usage: {c.name}\n" ++ String.join names

def ArgumentError.message : ArgumentError → String
  | .nothingSaid | .missingCommand => "a command is required"
  | .unknownCommand => "unrecognized command"
  | .unknownArgument => "unexpected argument"
  | .invalidValue => "invalid value"
  | .notANumber => "invalid number"
  | .repeated => "argument used twice"
  | .tooManyValues => "unexpected value"
  | .help | .version _ => ""

/-- The transcript where the arguments ask for nothing to be done. -/
def ArgumentError.transcript : ArgumentError → Transcript
  | .help => { exit := 0, stdout := usage commands }
  | .version path => { exit := 0, stdout := versionText path }
  | e => { exit := 2, stderr := "error: " ++ e.message ++ "\n" }

def faultText (f : Fault) : String :=
  "Error: " ++ f.message ++ "\n" ++
    match f.hint? with
    | some hint => "Hint: " ++ hint ++ "\n"
    | none => ""

/-- A character of a logged message. What could steer a terminal is spelled out. -/
def loggedChar (c : Char) : String :=
  let n := c.toNat
  let digits := String.ofList (Nat.toDigits 16 n)
  if [7, 8, 12].contains n then "\\x0" ++ digits
  else if n = 27 || n = 127 then "\\x" ++ digits
  else if 0x80 ≤ n && n ≤ 0x9f then "\\u\x7b" ++ digits ++ "\x7d"
  else c.toString

def warningLine (message : String) (fields : List (String × String)) : String :=
  " WARN " ++ String.join (message.toList.map loggedChar) ++
    String.join (fields.map fun f => " " ++ f.1 ++ "=" ++ f.2) ++ "\n"

def prepare (s : Start) (m : Machine) : Machine :=
  { m with
    runner := .processes, launch := launch s.environment, jobs := [], calls := []
    metrics := .ofCapacity Metrics.defaultCapacity, warnings := [], canListen }

/-- Load the configuration and carry out the order. None if the program does not come to an end. -/
def carryOut (s : Start) (a : Arguments) (m : Machine) (cancelAt : Option Nat)
    (watch : Option Machine.Watch) : Machine × Option (Except Fault Unit × String) :=
  let places := Places.ofEnvironment s.environment
  let configPath := a.config.getD places.configFile
  match m.run (configFor configPath a.order).run with
  | (m, .ended (.error fault)) => (m, some (.error fault, ""))
  | (m, .ended (.ok config)) =>
    let setting : Setting :=
      { config, configPath, service := .ofConfig places config, stdin := s.stdin }
    let m := { m with job := setting.background a.order }
    match m.run ((setting.perform a.order).run.run "") cancelAt none watch with
    | (m, .ended r) => (m.shutDown, some r)
    | (m, .abandoned t) | (m, .stuck t) => ((m.abandon t).shutDown, none)
  | (m, _) => (m, none)

/-- Run the program. An interrupt comes at a time or when a file appears. -/
def run (s : Start) (m : Machine) (cancelAt : Option Nat := none)
    (watch : Option Machine.Watch := none) : Machine × Option Transcript :=
  match parse s.environment s.args with
  | .error e => (m, some e.transcript)
  | .ok a =>
    match carryOut s a (prepare s m) cancelAt watch with
    | (m, none) => (m, none)
    | (m, some (outcome, stdout)) =>
      let log := if s.logs then String.join (m.warnings.map fun w => warningLine w.1 w.2) else ""
      match outcome with
      | .ok _ => (m, some { exit := 0, stdout, stderr := log })
      | .error fault => (m, some { exit := 1, stdout, stderr := log ++ faultText fault })

end Cli

end Foundry
