import Foundry.Shell.Grammar

/-!
# Calculations of the shell

Whole numbers of 64 bits with the operators of common languages, names of variables
and assignments. A calculation sees the variables and says which of them it set.
-/

namespace Foundry

namespace Shell

namespace Arithmetic

/-- What a calculation sees and has set, and the text still to read. -/
structure State where
  rest : List Char
  /-- What is set, the latest first. -/
  assigned : List (String × Int) := []

abbrev Calc := StateT State (Except String)

/-- The number as 64 bits hold it. -/
def wrap (n : Int) : Int := Int.bmod n 0x10000000000000000

def fail {α : Type} (message : String) : Calc α := fun _ => .error message

def skipBlanks : Calc Unit :=
  modify fun s => { s with rest := s.rest.dropWhile fun c => c == ' ' || c == '\t' || c == '\n' }

/-- Binary operators by how tightly they bind, from the loosest on. -/
def levels : List (List String) :=
  [["||"], ["&&"], ["|"], ["^"], ["&"], ["==", "!="], ["<=", ">=", "<", ">"], ["<<", ">>"],
   ["+", "-"], ["*", "/", "%"]]

def operators : List String :=
  ["<<=", ">>=", "||", "&&", "==", "!=", "<=", ">=", "<<", ">>", "+=", "-=", "*=", "/=", "%=", "&=",
   "|=", "^=", "+", "-", "*", "/", "%", "<", ">", "|", "^", "&", "=", "?", ":", "!", "~", "(", ")"]

def peekOperator : Calc (Option String) := do
  skipBlanks
  let s ← get
  return operators.find? fun op => op.toList.isPrefixOf s.rest

def takeOperator (op : String) : Calc Unit :=
  modify fun s => { s with rest := s.rest.drop op.length }

def ofBool (b : Bool) : Int := if b then 1 else 0

/-- The value of an operator, if it is defined. -/
def apply (op : String) (a b : Int) : Except String Int :=
  match op with
  | "|" =>
    .ok (wrap (Int.ofNat ((a % 0x10000000000000000).toNat ||| (b % 0x10000000000000000).toNat)))
  | "^" =>
    .ok (wrap (Int.ofNat ((a % 0x10000000000000000).toNat ^^^ (b % 0x10000000000000000).toNat)))
  | "&" =>
    .ok (wrap (Int.ofNat ((a % 0x10000000000000000).toNat &&& (b % 0x10000000000000000).toNat)))
  | "==" => .ok (ofBool (a = b))
  | "!=" => .ok (ofBool (a ≠ b))
  | "<=" => .ok (ofBool (a ≤ b))
  | ">=" => .ok (ofBool (a ≥ b))
  | "<" => .ok (ofBool (a < b))
  | ">" => .ok (ofBool (a > b))
  | "<<" => .ok (wrap (a * Nat.pow 2 (b % 64).toNat))
  | ">>" => .ok (Int.fdiv a (Nat.pow 2 (b % 64).toNat))
  | "+" => .ok (wrap (a + b))
  | "-" => .ok (wrap (a - b))
  | "*" => .ok (wrap (a * b))
  | "/" => if b = 0 then .error "division by zero" else .ok (wrap (Int.tdiv a b))
  | "%" => if b = 0 then .error "division by zero" else .ok (wrap (Int.tmod a b))
  | _ => .ok b

def digitValue (c : Char) : Nat :=
  if c.isDigit then c.toNat - 48 else if c.isLower then c.toNat - 87 else c.toNat - 55

/-- A number in base ten, eight or sixteen, by how it starts. -/
def numeral? (cs : List Char) : Option Int :=
  let inBase := fun (base : Nat) (digits : List Char) =>
    if !digits.isEmpty && digits.all fun c => c.isAlphanum && digitValue c < base then
      some (min (Int.ofNat (digits.foldl (fun n c => base * n + digitValue c) 0))
        (0x8000000000000000 - 1))
    else none
  match cs with
  | '0' :: 'x' :: digits | '0' :: 'X' :: digits => inBase 16 digits
  | '0' :: d :: digits => inBase 8 (d :: digits)
  | _ => inBase 10 cs

/-- A number as variables hold it: perhaps with a sign and blanks around it. -/
def signed? (s : String) : Option Int :=
  let cs := s.toList.dropWhile (· == ' ')
  let cs := (cs.reverse.dropWhile (· == ' ')).reverse
  match cs with
  | [] => some 0
  | '-' :: rest => (numeral? rest).map (- ·)
  | '+' :: rest => numeral? rest
  | _ => numeral? cs

def valueOf (lookup : String → Option String) (name : String) : Calc Int := do
  match (← get).assigned.lookup name with
  | some n => return n
  | none =>
    match lookup name with
    | none => return 0
    | some text =>
      match signed? text with
      | some n => return n
      | none => fail s!"Illegal number: {text}"

/-- Whether an operator assigns, and with which operation. -/
def assigning? (op : String) : Option String :=
  if op = "=" then some "="
  else if ["<<=", ">>=", "+=", "-=", "*=", "/=", "%=", "&=", "|=", "^="].contains op then
    some (String.ofList op.toList.dropLast)
  else none

def setVariable (isLive : Bool) (name : String) (n : Int) : Calc Unit :=
  if isLive then modify fun s => { s with assigned := (name, n) :: s.assigned } else return ()

mutual

/-- A condition with two outcomes, or what binds tighter. Only what is live sets variables. -/
def readExpression (lookup : String → Option String) : Nat → Bool → Calc Int
  | 0, _ => fail "expecting primary"
  | fuel + 1, isLive => do
    let a ← readLevel lookup fuel isLive levels
    match ← peekOperator with
    | some "?" => do
      takeOperator "?"
      let b ← readExpression lookup fuel (isLive && a ≠ 0)
      match ← peekOperator with
      | some ":" => takeOperator ":"
      | _ => fail "expecting ':'"
      let c ← readExpression lookup fuel (isLive && a = 0)
      return if a ≠ 0 then b else c
    | _ => return a

/-- Operands joined by the operators of one level. -/
def readLevel (lookup : String → Option String) : Nat → Bool → List (List String) → Calc Int
  | 0, _, _ => fail "expecting primary"
  | fuel + 1, isLive, [] => readPrimary lookup fuel isLive
  | fuel + 1, isLive, ops :: tighter => do
    let a ← readLevel lookup fuel isLive tighter
    readMore lookup fuel isLive ops tighter a

/-- What further operators of a level make of a value. -/
def readMore (lookup : String → Option String) :
    Nat → Bool → List String → List (List String) → Int → Calc Int
  | 0, _, _, _, _ => fail "expecting primary"
  | fuel + 1, isLive, ops, tighter, a => do
    match ← peekOperator with
    | some op =>
      if !ops.contains op then return a
      else do
        takeOperator op
        let isNeeded := if op = "||" then a = 0 else if op = "&&" then a ≠ 0 else true
        let b ← readLevel lookup fuel (isLive && isNeeded) tighter
        let c ←
          if op = "||" then pure (ofBool (a ≠ 0 || b ≠ 0))
          else if op = "&&" then pure (ofBool (a ≠ 0 && b ≠ 0))
          else match apply op a b with
            | .ok c => pure c
            | .error e => if isLive then fail e else pure 0
        readMore lookup fuel isLive ops tighter c
    | none => return a

/-- A number, a variable, an assignment, a group or a signed value. -/
def readPrimary (lookup : String → Option String) : Nat → Bool → Calc Int
  | 0, _ => fail "expecting primary"
  | fuel + 1, isLive => do
    match ← peekOperator with
    | some "(" => do
      takeOperator "("
      let a ← readExpression lookup fuel isLive
      match ← peekOperator with
      | some ")" => do
        takeOperator ")"
        return a
      | _ => fail "expecting ')'"
    | some "-" => do
      takeOperator "-"
      return wrap (- (← readPrimary lookup fuel isLive))
    | some "+" => do
      takeOperator "+"
      readPrimary lookup fuel isLive
    | some "!" => do
      takeOperator "!"
      return ofBool ((← readPrimary lookup fuel isLive) = 0)
    | some "~" => do
      takeOperator "~"
      return -(← readPrimary lookup fuel isLive) - 1
    | some _ => fail "expecting primary"
    | none => do
      let s ← get
      match s.rest with
      | [] => fail "expecting primary"
      | c :: _ =>
        if c.isDigit then do
          let digits := s.rest.takeWhile Char.isAlphanum
          set { s with rest := s.rest.drop digits.length }
          match numeral? digits with
          | some n => return n
          | none => fail "expecting EOF"
        else if isNameStart c then do
          let name := String.ofList (s.rest.takeWhile isNameChar)
          set { s with rest := s.rest.dropWhile isNameChar }
          match (← peekOperator).bind fun op => (assigning? op).map (op, ·) with
          | some (op, operation) => do
            takeOperator op
            let old ← if operation = "=" then pure 0 else valueOf lookup name
            let b ← readExpression lookup fuel isLive
            match apply operation old b with
            | .ok n => do
              setVariable isLive name n
              return n
            | .error e => fail e
          | none => valueOf lookup name
        else fail "expecting primary"

end

def evaluate (lookup : String → Option String) (text : String) :
    Except String (Int × List (String × Int)) :=
  let start : State := { rest := text.toList }
  let whole : Calc Int := do
    skipBlanks
    if (← get).rest.isEmpty then return 0
    let n ← readExpression lookup (16 * (text.length + 16)) true
    skipBlanks
    if (← get).rest.isEmpty then return n else fail "expecting EOF"
  (whole.run start).map fun r => (r.1, r.2.assigned.reverse)

end Arithmetic

end Shell

end Foundry
