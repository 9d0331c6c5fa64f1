import Foundry.Files.Tree
import Foundry.Shell.Arithmetic
import Foundry.Text.Bytes

/-!
# Tests

Conditions on files, texts and numbers, with negation, conjunction and grouping.
-/

namespace Foundry

namespace Shell

namespace Test

/-- Where files are looked up. -/
structure View where
  files : Files
  cwd : Place

def unaries : List String :=
  ["-z", "-n", "-f", "-d", "-e", "-r", "-w", "-x", "-s", "-L", "-h", "-t", "-b", "-c", "-p", "-S"]

def binaries : List String := ["=", "==", "!=", "<", ">", "-eq", "-ne", "-lt", "-le", "-gt", "-ge"]

def unary (v : View) (op s : String) : Bool :=
  let path := Text.fromBytes s
  let mode := fun (bits : Nat) => match v.files.mode v.cwd path with
    | .ok m => m &&& bits ≠ 0
    | .error _ => false
  match op with
  | "-z" => s.isEmpty
  | "-n" => !s.isEmpty
  | "-f" => v.files.isFile v.cwd path
  | "-d" => v.files.isDir v.cwd path
  | "-e" | "-r" | "-w" => v.files.exists? v.cwd path
  | "-x" => mode 0o111
  | "-s" => match v.files.size v.cwd path with | .ok n => n ≠ 0 | .error _ => false
  | "-L" | "-h" => v.files.isLink v.cwd path
  | _ => false

def integer (s : String) : Except String Int :=
  match Arithmetic.signed? s with
  | some n => if s.isEmpty then .error s!"Illegal number: {s}" else .ok n
  | none => .error s!"Illegal number: {s}"

def binary (op a b : String) : Except String Bool :=
  match op with
  | "=" | "==" => .ok (a == b)
  | "!=" => .ok (a != b)
  | "<" => .ok (a < b)
  | ">" => .ok (b < a)
  | _ => do
    let x ← integer a
    let y ← integer b
    match op with
    | "-eq" => .ok (x = y)
    | "-ne" => .ok (x ≠ y)
    | "-lt" => .ok (x < y)
    | "-le" => .ok (x ≤ y)
    | "-gt" => .ok (y < x)
    | _ => .ok (y ≤ x)

mutual

/-- Alternatives, and the arguments after them. -/
def alternatives (v : View) : Nat → List String → Except String (Bool × List String)
  | 0, _ => .error "argument expected"
  | fuel + 1, args => do
    let (a, rest) ← conjunctions v fuel args
    match rest with
    | "-o" :: rest => do
      let (b, rest) ← alternatives v fuel rest
      .ok (a || b, rest)
    | rest => .ok (a, rest)

def conjunctions (v : View) : Nat → List String → Except String (Bool × List String)
  | 0, _ => .error "argument expected"
  | fuel + 1, args => do
    let (a, rest) ← negations v fuel args
    match rest with
    | "-a" :: rest => do
      let (b, rest) ← conjunctions v fuel rest
      .ok (a && b, rest)
    | rest => .ok (a, rest)

def negations (v : View) : Nat → List String → Except String (Bool × List String)
  | 0, _ => .error "argument expected"
  | fuel + 1, args =>
    match args with
    | a :: op :: b :: rest =>
      if binaries.contains op then do
        .ok (← binary op a b, rest)
      else if a = "!" then do
        let (x, rest) ← negations v fuel (op :: b :: rest)
        .ok (!x, rest)
      else if a = "(" then do
        let (x, rest) ← alternatives v fuel (op :: b :: rest)
        match rest with
        | ")" :: rest => .ok (x, rest)
        | _ => .error "closing paren expected"
      else if unaries.contains a then .ok (unary v a op, b :: rest)
      else .ok (!a.isEmpty, op :: b :: rest)
    | ["!", a] => .ok (a.isEmpty, [])
    | [op, a] =>
      if unaries.contains op then .ok (unary v op a, [])
      else if op = "(" then .error "closing paren expected"
      else if binaries.contains a then .error s!"{a}: argument expected"
      else .ok (!op.isEmpty, [a])
    | [a] => .ok (!a.isEmpty, [])
    | [] => .ok (false, [])

end

/-- The truth of a whole test. What was read last is complained about if something follows it. -/
def evaluate (v : View) (args : List String) : Except String Bool := do
  match args with
  | [] => .ok false
  | args =>
    let (x, rest) ← alternatives v (4 * args.length + 4) args
    if rest.isEmpty then .ok x
    else
      let last := (args.drop (args.length - rest.length - 1)).headD ""
      .error s!"{last}: unexpected operator"

end Test

end Shell

end Foundry
