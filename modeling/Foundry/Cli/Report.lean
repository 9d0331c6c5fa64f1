import Foundry.Console.Session
import Foundry.Number.Decimal
import Foundry.Program

/-!
# What the commands print

Lines for a session without a terminal, and programs that print them.
-/

namespace Foundry

namespace Cli

/-- A program that prints as it goes. What it has printed stays printed when it ends in a fault. -/
abbrev Printing (α : Type) := ExceptT Fault (StateT String Program) α

namespace Printing

def line (text : String) : Printing Unit := modify fun printed => printed ++ text ++ "\n"

/-- Act without printing. -/
def act {α : Type} (p : Action α) : Printing α := ExceptT.mk (StateT.lift p.run)

/-- The outcome of an action, as a value. -/
def tryAct {α : Type} (p : Action α) : Printing (Except Fault α) :=
  ExceptT.lift (StateT.lift p.run)

def step (text detail : String) : Printing Unit := line s!"  [OK] {text} ({detail})"

def caution (text hint : String) : Printing Unit := line s!"  [WARN] {text} - {hint}"

def remark (text : String) : Printing Unit := line s!"  {text}"

def field (key value : String) : Printing Unit := line s!"  {key}: {value}"

/-- A field that shows whether all is well. -/
def status (key value : String) (isWell : Bool) : Printing Unit :=
  let mark := if isWell then "OK" else "WARN"
  line s!"  [{mark}] {key}: {value}"

def start (text : String) : Printing Unit := line s!"... {text}"

def finish (text : String) : Printing Unit := line s!"[OK] {text}"

def fail (text : String) : Printing Unit := line s!"[FAIL] {text}"

end Printing

def kibibyte : Nat := 1024

/-- A number of bytes, with one decimal from a kibibyte on. -/
def sizeText (bytes : Nat) : String :=
  let inUnits := fun (unit : Nat) =>
    Decimal.fixed 1 ((Binary64.ofNat bytes).div (Binary64.ofNat unit))
  if bytes < kibibyte then s!"{bytes} B"
  else if bytes < kibibyte * kibibyte then inUnits kibibyte ++ " KiB"
  else inUnits (kibibyte * kibibyte) ++ " MiB"

end Cli

end Foundry
