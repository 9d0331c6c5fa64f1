import Foundry.Number.Literal

/-!
# Formatted printing

A format is written again and again until it has used up its arguments. Missing
arguments are empty texts or zeros.
-/

namespace Foundry

namespace Printf

/-- What can be wrong with an argument that should be a number. -/
inductive Flaw where
  | notNumeric
  /-- Something follows the number. -/
  | partly
  | outOfRange
deriving DecidableEq, Repr, Inhabited

structure Printed where
  /-- The characters, the latest first. -/
  out : List Char := []
  /-- Arguments that are no numbers. -/
  refused : List (String × Flaw) := []
  /-- Nothing more is to be printed. -/
  stopped : Bool := false
  /-- A conversion that there is not; empty if the format ends within one. -/
  broken : Option String := none
deriving Inhabited

variable (p : Printed)

def Printed.add (cs : List Char) : Printed := { p with out := cs.reverse ++ p.out }

def Printed.refuse (arg : String) : Option Flaw → Printed
  | some flaw => { p with refused := p.refused ++ [(arg, flaw)] }
  | none => p

def octalValue (digits : List Char) : Char :=
  Char.ofNat (digits.foldl (fun n c => 8 * n + (c.toNat - 48)) 0 % 256)

def isOctal (c : Char) : Bool := '0' ≤ c && c ≤ '7'

/-- What a backslash and the characters after it stand for, and how many characters that takes;
none if nothing is to follow. Octal numbers may be longer by a zero in front where that is said. -/
def escape (leadingZero : Bool) (cs : List Char) : Option (List Char) × Nat :=
  match cs with
  | 'a' :: _ => (some ['\x07'], 1)
  | 'b' :: _ => (some ['\x08'], 1)
  | 'c' :: _ => (none, 1)
  | 'e' :: _ => (some ['\x1b'], 1)
  | 'f' :: _ => (some ['\x0c'], 1)
  | 'n' :: _ => (some ['\n'], 1)
  | 'r' :: _ => (some ['\r'], 1)
  | 't' :: _ => (some ['\t'], 1)
  | 'v' :: _ => (some ['\x0b'], 1)
  | '\\' :: _ => (some ['\\'], 1)
  | c :: rest =>
    if leadingZero && c == '0' then
      let digits := (rest.take 3).takeWhile isOctal
      (some [octalValue digits], 1 + digits.length)
    else if isOctal c then
      let digits := (cs.take 3).takeWhile isOctal
      (some [octalValue digits], digits.length)
    else (some ['\\'], 0)
  | [] => (some ['\\'], 0)

/-- A text with its escapes carried out, and whether it was cut short. -/
def unescape (leadingZero : Bool) : Nat → List Char → List Char × Bool
  | 0, _ => ([], false)
  | fuel + 1, cs =>
    match cs with
    | [] => ([], false)
    | '\\' :: rest =>
      match escape leadingZero rest with
      | (none, _) => ([], true)
      | (some text, n) =>
        let (more, stopped) := unescape leadingZero fuel (rest.drop n)
        (text ++ more, stopped)
    | c :: rest =>
      let (more, stopped) := unescape leadingZero fuel rest
      (c :: more, stopped)

/-- The flags, width and precision of a conversion. -/
structure Directive where
  left : Bool := false
  plus : Bool := false
  blank : Bool := false
  zero : Bool := false
  alternate : Bool := false
  width : Nat := 0
  precision : Option Nat := none
deriving Inhabited

variable (d : Directive)

def Directive.pad (isNumber : Bool) (sign body : List Char) : List Char :=
  let gap := d.width - (sign.length + body.length)
  if d.left then sign ++ body ++ List.replicate gap ' '
  else if isNumber && d.zero && d.precision.isNone then sign ++ List.replicate gap '0' ++ body
  else List.replicate gap ' ' ++ sign ++ body

def readFlags (d : Directive) : Nat → List Char → Directive × List Char
  | 0, cs => (d, cs)
  | fuel + 1, cs =>
    match cs with
    | '-' :: rest => readFlags { d with left := true } fuel rest
    | '+' :: rest => readFlags { d with plus := true } fuel rest
    | ' ' :: rest => readFlags { d with blank := true } fuel rest
    | '0' :: rest => readFlags { d with zero := true } fuel rest
    | '#' :: rest => readFlags { d with alternate := true } fuel rest
    | _ => (d, cs)

def number (digits : List Char) : Nat := digits.foldl (fun n c => 10 * n + (c.toNat - 48)) 0

/-- The number in front of a text, or in the next argument for an asterisk. -/
def readCount (cs : List Char) (args : List String) : Nat × List Char × List String :=
  match cs with
  | '*' :: rest =>
    match args with
    | a :: more => (number (a.toList.takeWhile Char.isDigit), rest, more)
    | [] => (0, rest, [])
  | _ => (number (cs.takeWhile Char.isDigit), cs.dropWhile Char.isDigit, args)

def digitValue (c : Char) : Nat :=
  if c.isDigit then c.toNat - 48 else c.toLower.toNat - 87

/-- The number at the front of a text without a sign, and what follows it; none if there is none.
The start tells the base. -/
def magnitudeOf (cs : List Char) : Option (Nat × List Char) :=
  let value := fun (base : Nat) (digits : List Char) =>
    digits.foldl (fun n c => base * n + digitValue c) 0
  let isHex := fun (c : Char) => c.isDigit || ('a' ≤ c.toLower && c.toLower ≤ 'f')
  match cs with
  | '0' :: x :: rest =>
    if x.toLower == 'x' && rest.head?.any isHex then
      some (value 16 (rest.takeWhile isHex), rest.dropWhile isHex)
    else some (value 8 ((x :: rest).takeWhile isOctal), (x :: rest).dropWhile isOctal)
  | _ =>
    let digits := cs.takeWhile Char.isDigit
    if digits.isEmpty then none else some (value 10 digits, cs.drop digits.length)

/-- The number that an argument means, and what is wrong with it. A quote in front gives a
character's number. -/
def argument (s : String) : Int × Option Flaw :=
  match s.toList with
  | [] => (0, none)
  | '\x27' :: c :: _ | '"' :: c :: _ => (c.toNat, none)
  | cs =>
    let cs := cs.dropWhile fun c => c == ' ' || ('\t' ≤ c && c ≤ '\r')
    let (negative, digits) := match cs with
      | '-' :: rest => (true, rest)
      | '+' :: rest => (false, rest)
      | cs => (false, cs)
    match magnitudeOf digits with
    | none => (0, some .notNumeric)
    | some (n, rest) =>
      let x : Int := if negative then -(n : Int) else n
      if x < -0x8000000000000000 then (-0x8000000000000000, some .outOfRange)
      else if 0x8000000000000000 ≤ x then (0x8000000000000000 - 1, some .outOfRange)
      else (x, if rest.isEmpty then none else some .partly)

/-- A decimal number with so many places. -/
def fixedPoint (s : String) : List Char × Option Flaw :=
  let x? := if s.isEmpty then some (Binary64.zero false) else Decimal.parse? s
  let x := x?.getD (Binary64.zero false)
  let text := (Decimal.fixed (d.precision.getD 6) x).toList
  let (sign, digits) := match text with
    | '-' :: rest => (['-'], rest)
    | text => (if d.plus then ['+'] else if d.blank then [' '] else [], text)
  ({ d with precision := none }.pad true sign digits, if x?.isSome then none else some .notNumeric)

def digitsOf (base : Nat) (upper : Bool) (n : Nat) : List Char :=
  let digits := Nat.toDigits base n
  if upper then digits.map Char.toUpper else digits

/-- At least so many digits. -/
def widen (digits : List Char) : List Char :=
  match d.precision with
  | some n => List.replicate (n - digits.length) '0' ++ digits
  | none => digits

/-- An integer as a conversion writes it. -/
def integer (kind : Char) (n : Int) : List Char :=
  let unsigned := (n % 0x10000000000000000).toNat
  match kind with
  | 'o' =>
    d.pad true [] (widen d ((if d.alternate then ['0'] else []) ++ digitsOf 8 false unsigned))
  | 'x' =>
    d.pad true (if d.alternate then ['0', 'x'] else []) (widen d (digitsOf 16 false unsigned))
  | 'X' => d.pad true (if d.alternate then ['0', 'X'] else []) (widen d (digitsOf 16 true unsigned))
  | 'u' => d.pad true [] (widen d (digitsOf 10 false unsigned))
  | _ =>
    let sign := if n < 0 then ['-'] else if d.plus then ['+'] else if d.blank then [' '] else []
    d.pad true sign (widen d (digitsOf 10 false n.natAbs))

/-- One pass over a format: what it prints, the arguments it leaves, whether it used any. -/
def pass : Nat → List Char → List String → Bool → Printed → Printed × List String × Bool
  | 0, _, args, used, p => (p, args, used)
  | fuel + 1, format, args, used, p =>
    match format with
    | [] => (p, args, used)
    | '\\' :: '"' :: rest => pass fuel rest args used (p.add ['"'])
    | '\\' :: rest =>
      match escape false rest with
      | (none, _) => ({ p with stopped := true }, args, used)
      | (some text, n) => pass fuel (rest.drop n) args used (p.add text)
    | '%' :: '%' :: rest => pass fuel rest args used (p.add ['%'])
    | '%' :: rest =>
      let (d, rest) := readFlags {} rest.length rest
      let (width, rest, args) := readCount rest args
      let d := { d with width }
      let (d, rest, args) := match rest with
        | '.' :: rest =>
          let (n, rest, args) := readCount rest args
          ({ d with precision := some n }, rest, args)
        | _ => (d, rest, args)
      match rest with
      | [] => ({ p with stopped := true, broken := some "" }, args, used)
      | kind :: rest =>
        let arg := args.headD ""
        let shown := fun (cs : List Char) =>
          d.pad false [] (match d.precision with | some n => cs.take n | none => cs)
        if kind == 's' then pass fuel rest args.tail true (p.add (shown arg.toList))
        else if kind == 'c' then pass fuel rest args.tail true (p.add (shown (arg.toList.take 1)))
        else if kind == 'b' then
          let (text, stopped) := unescape true (arg.length + 1) arg.toList
          let p := p.add (shown text)
          if stopped then ({ p with stopped := true }, args.tail, true)
          else pass fuel rest args.tail true p
        else if "diouxX".toList.contains kind then
          let (n, flaw) := argument arg
          let p := p.refuse arg flaw
          pass fuel rest args.tail true (p.add (integer d kind n))
        else if kind == 'f' || kind == 'F' then
          let (text, flaw) := fixedPoint d arg
          pass fuel rest args.tail true ((p.refuse arg flaw).add text)
        else
          ({ p with stopped := true, broken := some (String.ofList ['%', kind]) }, args, used)
    | c :: rest => pass fuel rest args used (p.add [c])

/-- Passes until the arguments are used up. -/
def passes (format : List Char) : Nat → List String → Printed → Printed
  | 0, _, p => p
  | fuel + 1, args, p =>
    let (p, args, used) := pass (format.length + 1) format args false p
    if p.stopped || args.isEmpty || !used then p else passes format fuel args p

def print (format : String) (args : List String) : Printed :=
  passes format.toList (args.length + 1) args {}

def Printed.text : String := String.ofList p.out.reverse

def Printed.code : Nat :=
  if p.broken.isSome then 2 else if p.refused.isEmpty then 0 else 1

end Printf

end Foundry
