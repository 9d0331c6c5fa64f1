import Foundry.Cli.Options
import Foundry.Config.Places

/-!
# The command line of the service

The commands, their options, and what a command line asks for.
-/

namespace Foundry

namespace Cli

inductive OutputFormat where
  | plain
  | json
deriving DecidableEq, Repr, Inhabited

def OutputFormat.name : OutputFormat → String
  | .plain => "plain"
  | .json => "json"

inductive ConfigOrder where
  | show_
  | path
  | init (force : Bool)
deriving DecidableEq, Repr, Inhabited

inductive Order where
  | serve (bind : Option String) (noWarm : Bool)
  | generate (file : Option String) (timeout : Option Binary64) (format : OutputFormat)
  | cacheStats (format : OutputFormat)
  | cacheClear (yes : Bool)
  | templateStatus
  | templateWarm
  | templateClear (yes : Bool)
  | config (order : Option ConfigOrder)
deriving DecidableEq, Repr, Inhabited

structure Arguments where
  verbose : Nat
  config : Option String
  order : Order
deriving DecidableEq, Repr, Inhabited

/-! ## The commands -/

def commonOptions : List Opt :=
  [⟨some 'v', "verbose", .count⟩, ⟨some 'c', "config", .value .path⟩, ⟨some 'h', "help", .help⟩,
   ⟨some 'V', "version", .version⟩]

def formatOption : Opt :=
  ⟨some 'f', "format", .value (.choice [OutputFormat.plain.name, OutputFormat.json.name])⟩

def yesOption : Opt := ⟨some 'y', "yes", .flag⟩

/-- A command without commands of its own. -/
def leaf (name : String) (options : List Opt) (operand : Option (String × ValueKind) := none) :
    Command :=
  .mk name (options ++ commonOptions) operand [] false

/-- A command that is there for those within it. -/
def branch (name : String) (inner : List Command) (needsInner : Bool := true) : Command :=
  .mk name commonOptions none inner needsInner

def commands : Command :=
  branch "kiln" [
    leaf "serve" [⟨some 'b', "bind", .value .text⟩, ⟨none, "no-warm", .flag⟩],
    leaf "generate" [⟨some 't', "timeout", .value .number⟩, formatOption] (some ("file", .path)),
    branch "cache" [leaf "stats" [formatOption], leaf "clear" [yesOption]],
    branch "template" [leaf "status" [], leaf "warm" [], leaf "clear" [yesOption]],
    branch "config" [leaf "show" [], leaf "path" [], leaf "init" [⟨some 'f', "force", .flag⟩]]
    false]

/-! ## Reading -/

namespace Level

def text? (l : Level) (name : String) : Option String := (l.given.lookup name).map (·.text)

def isGiven (l : Level) (name : String) : Bool := (l.given.lookup name).isSome

def format (l : Level) : OutputFormat :=
  if l.text? "format" = some OutputFormat.json.name then .json else .plain

end Level

/-- The order that the levels below the outermost one spell. -/
def orderOf : List Level → Option Order
  | [l] =>
    match l.name with
    | "serve" => some (.serve (l.text? "bind") (l.isGiven "no-warm"))
    | "generate" =>
      some (.generate (l.text? "file") ((l.text? "timeout").bind Decimal.parse?) l.format)
    | "config" => some (.config none)
    | _ => none
  | [outer, l] =>
    match outer.name, l.name with
    | "cache", "stats" => some (.cacheStats l.format)
    | "cache", "clear" => some (.cacheClear (l.isGiven "yes"))
    | "template", "status" => some .templateStatus
    | "template", "warm" => some .templateWarm
    | "template", "clear" => some (.templateClear (l.isGiven "yes"))
    | "config", "show" => some (.config (some .show_))
    | "config", "path" => some (.config (some .path))
    | "config", "init" => some (.config (some (.init (l.isGiven "force"))))
    | _, _ => none
  | _ => none

/-- What counts of a common option: the command line before the environment, and of equals the
innermost. -/
def innermost? (name : String) (levels : List Level) : Option Given :=
  levels.foldl (fun best l =>
    match best, l.given.lookup name with
    | some b, some g =>
      if b.source = .commandLine && g.source = .environment then some b else some g
    | b, g => g.or b) none

def configVariable : String := "KILN_CONFIG"

def parse (environment : Environment) (args : List String) : Except ArgumentError Arguments := do
  let defaults := match environment.lookup configVariable with
    | some path => [("config", path)]
    | none => []
  let levels ← readArguments defaults [commands.name] commands {} args
  match orderOf levels.tail with
  | some order =>
    .ok {
      verbose := match innermost? "verbose" levels with | some g => g.times | none => 0
      config := (innermost? "config" levels).map (·.text)
      order }
  | none => .error .missingCommand

def version : String := "0.3.0"

def versionText (path : List String) : String := "-".intercalate path ++ " " ++ version ++ "\n"

end Cli

end Foundry
