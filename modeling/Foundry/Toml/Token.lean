import Foundry.Number.Decimal
import Foundry.Text.Hex
import Foundry.Toml.Assembly

/-!
# Tokens of configuration files

Blanks, line ends and comments, the four kinds of quoted text, names, and the
words that stand for numbers, truth values and moments. Readers take the text
from here on and give what they read with the rest.
-/

namespace Foundry

variable (c : Char) (word cs : List Char)

namespace Toml

/-! ## Blanks and comments -/

def isSpace : Bool := c == ' ' || c == '\t'

/-- A character that may stand unescaped on one line: no control character but the tab. -/
def isPlain : Bool := c == '\t' || (0x20 ≤ c.toNat && c.toNat ≠ 0x7F)

def skipSpace : List Char := cs.dropWhile isSpace

/-- The text after a line end at the front. -/
def newline? : List Char → Option (List Char)
  | '\n' :: rest => some rest
  | '\r' :: '\n' :: rest => some rest
  | _ => none

/-- The text after a comment, which runs to the end of its line. -/
def skipComment : List Char → List Char
  | '#' :: rest => rest.dropWhile isPlain
  | cs => cs

/-- Blanks, then perhaps a comment, then the end of the line or of the file. -/
def lineEnd? : Option (List Char) :=
  match skipComment (skipSpace cs) with
  | [] => some []
  | rest => newline? rest

/-- The text after blanks, line ends and comments. A comment must end in a line end. -/
def skipLines : Nat → List Char → Option (List Char)
  | 0, cs => some cs
  | fuel + 1, cs =>
    match skipSpace cs with
    | '#' :: rest => do skipLines fuel (← newline? (rest.dropWhile isPlain))
    | rest =>
      match newline? rest with
      | some rest => skipLines fuel rest
      | none => some rest

/-! ## Quoted text -/

def escaped? : Char → Option Char
  | 'b' => some '\x08'
  | 't' => some '\t'
  | 'n' => some '\n'
  | 'f' => some '\x0c'
  | 'r' => some '\r'
  | '"' => some '"'
  | '\\' => some '\\'
  | _ => none

/-- The character whose number is written in hexadecimal. -/
def scalar? (digits : List Char) : Option Char := do
  let n ← Hex.number? digits
  if h : n.isValidChar then some (Char.ofNatAux n h) else none

/-- Put a character in front of what was read. -/
def push (c : Option Char) (read : Option (List Char × List Char)) :
    Option (List Char × List Char) := do
  let c ← c
  let r ← read
  return (c :: r.1, r.2)

/-- A one-line text with escapes, after its opening quote. -/
def readBasic : List Char → Option (List Char × List Char)
  | [] => none
  | '"' :: rest => some ([], rest)
  | '\\' :: 'u' :: a :: b :: c :: d :: rest => push (scalar? [a, b, c, d]) (readBasic rest)
  | '\\' :: 'U' :: a :: b :: c :: d :: e :: f :: g :: h :: rest =>
    push (scalar? [a, b, c, d, e, f, g, h]) (readBasic rest)
  | '\\' :: c :: rest => push (escaped? c) (readBasic rest)
  | c :: rest => if isPlain c && c ≠ '\\' then push (some c) (readBasic rest) else none

/-- A one-line verbatim text, after its opening quote. -/
def readLiteral : List Char → Option (List Char × List Char)
  | [] => none
  | '\x27' :: rest => some ([], rest)
  | c :: rest => if isPlain c then push (some c) (readLiteral rest) else none

/-- Three quotes close a long text; up to two more right after them belong to it. -/
def closeLong (quote : Char) : List Char → List Char × List Char
  | a :: b :: rest =>
    if a = quote ∧ b = quote then ([quote, quote], rest)
    else if a = quote then ([quote], b :: rest)
    else ([], a :: b :: rest)
  | [a] => if a = quote then ([quote], []) else ([], [a])
  | [] => ([], [])

/-- Whether only blanks stand before the next line end. -/
def restIsBlank : Bool := (newline? (skipSpace cs)).isSome

/-- A long text with escapes, after its opening. While `joining`, blanks and line ends are
dropped: a backslash at the end of a line joins it with the next text. -/
def readLongBasic (joining : Bool) : List Char → Option (List Char × List Char)
  | [] => none
  | '"' :: '"' :: '"' :: rest => some (closeLong '"' rest)
  | '\\' :: 'u' :: a :: b :: c :: d :: rest =>
    push (scalar? [a, b, c, d]) (readLongBasic false rest)
  | '\\' :: 'U' :: a :: b :: c :: d :: e :: f :: g :: h :: rest =>
    push (scalar? [a, b, c, d, e, f, g, h]) (readLongBasic false rest)
  | '\\' :: rest =>
    if restIsBlank rest then readLongBasic true rest
    else match rest with
      | [] => none
      | c :: rest => push (escaped? c) (readLongBasic false rest)
  | '\r' :: '\n' :: rest =>
    if joining then readLongBasic true rest else push (some '\n') (readLongBasic false rest)
  | c :: rest =>
    if joining && (isSpace c || c == '\n') then readLongBasic true rest
    else if isPlain c || c == '\n' then push (some c) (readLongBasic false rest)
    else none

/-- A long verbatim text, after its opening. -/
def readLongLiteral : List Char → Option (List Char × List Char)
  | [] => none
  | '\x27' :: '\x27' :: '\x27' :: rest => some (closeLong '\x27' rest)
  | '\r' :: '\n' :: rest => push (some '\n') (readLongLiteral rest)
  | c :: rest =>
    if isPlain c || c == '\n' then push (some c) (readLongLiteral rest) else none

/-- A line end right after the opening of a long text is dropped. -/
def dropFirstNewline : List Char := (newline? cs).getD cs

/-- A quoted text of any of the four kinds. -/
def readText : List Char → Option (List Char × List Char)
  | '"' :: '"' :: '"' :: rest => readLongBasic false (dropFirstNewline rest)
  | '"' :: rest => readBasic rest
  | '\x27' :: '\x27' :: '\x27' :: rest => readLongLiteral (dropFirstNewline rest)
  | '\x27' :: rest => readLiteral rest
  | _ => none

/-! ## Names -/

def isBare : Bool := c.isAlphanum || c == '_' || c == '-'

/-- One part of a dotted name: bare, or quoted on one line. -/
def readName : List Char → Option (String × List Char)
  | '"' :: rest => (readBasic rest).map fun r => (String.ofList r.1, r.2)
  | '\x27' :: rest => (readLiteral rest).map fun r => (String.ofList r.1, r.2)
  | cs =>
    let name := cs.takeWhile isBare
    if name.isEmpty then none else some (String.ofList name, cs.dropWhile isBare)

/-- Names nest less deep than this. -/
def depthLimit : Nat := 80

/-- The parts of a dotted name, at most `fuel` of them. -/
def readParts : Nat → List Char → Option (List String × List Char)
  | 0, _ => none
  | fuel + 1, cs => do
    let (name, rest) ← readName (skipSpace cs)
    match skipSpace rest with
    | '.' :: rest =>
      let (names, rest) ← readParts fuel rest
      return (name :: names, rest)
    | rest => return ([name], rest)

def Key.ofParts? : List String → Option Key
  | [] => none
  | [name] => some ⟨[], name⟩
  | p :: rest => (ofParts? rest).map fun k => { k with parents := p :: k.parents }

def readKey : Option (Key × List Char) := do
  let (names, rest) ← readParts (depthLimit - 1) cs
  return (← Key.ofParts? names, rest)

/-! ## Words -/

/-- The characters of numbers, truth values and moments. -/
def isWord : Bool :=
  c.isAlphanum || c == '_' || c == '+' || c == '-' || c == '.' || c == ':'

/-- Digits with single underscores between them, the underscores left out. -/
def ungroup? (isDigit : Char → Bool) : List Char → Option (List Char)
  | [] => none
  | [c] => if isDigit c then some [c] else none
  | c :: '_' :: rest => if isDigit c then (ungroup? isDigit rest).map (c :: ·) else none
  | c :: rest => if isDigit c then (ungroup? isDigit rest).map (c :: ·) else none

def isBinary : Bool := c == '0' || c == '1'

def isOctal : Bool := '0' ≤ c && c ≤ '7'

def isHex : Bool := (Hex.value? c).isSome

def ofDigits (base : Nat) (digits : List Char) : Nat :=
  digits.foldl (fun n c => base * n + (Hex.value? c).getD 0) 0

/-- Integers have 64 bits. -/
def integer? (n : Int) : Option Value :=
  if -0x8000000000000000 ≤ n ∧ n < 0x8000000000000000 then some (.integer n) else none

def based? (base : Nat) (isDigit : Char → Bool) (digits : List Char) : Option Value := do
  integer? (ofDigits base (← ungroup? isDigit digits))

def splitSign : List Char → Bool × List Char
  | '-' :: rest => (true, rest)
  | '+' :: rest => (false, rest)
  | cs => (false, cs)

/-- The whole part of a number: no zero in front of further digits. -/
def whole? : Option (List Char) := do
  let digits ← ungroup? Char.isDigit cs
  match digits with
  | '0' :: _ :: _ => none
  | _ => some digits

def exponent? : Option Int := do
  let (negative, digits) := splitSign cs
  let n := ofDigits 10 (← ungroup? Char.isDigit digits)
  return if negative then -n else n

def isExponentMark : Bool := c == 'e' || c == 'E'

/-- A number with a fraction or an exponent. A positive one must be finite. -/
def float? (negative : Bool) (cs : List Char) : Option Value := do
  let mantissa := cs.takeWhile fun c => !isExponentMark c
  let exponent ← match cs.dropWhile fun c => !isExponentMark c with
    | [] => some 0
    | _ :: rest => exponent? rest
  let whole ← whole? (mantissa.takeWhile (· ≠ '.'))
  let fraction ← match mantissa.dropWhile (· ≠ '.') with
    | [] => some []
    | _ :: rest => ungroup? Char.isDigit rest
  let x := Decimal.read negative (ofDigits 10 (whole ++ fraction)) (exponent - fraction.length)
  if x = Binary64.infinity false then none else some (.float x)

def number? : Option Value :=
  let (negative, cs) := splitSign word
  if cs = ['i', 'n', 'f'] then some (.float (Binary64.infinity negative))
  else if cs = ['n', 'a', 'n'] then
    some (.float (if negative then Binary64.nan.neg else Binary64.nan))
  else if cs.any fun c => c == '.' || isExponentMark c then float? negative cs
  else do
    let n := ofDigits 10 (← whole? cs)
    integer? (if negative then -n else n)

/-! ## Moments -/

/-- A number of exactly two digits within bounds. -/
def two? (low high : Nat) : List Char → Option (Nat × List Char)
  | a :: b :: rest =>
    if a.isDigit && b.isDigit then
      let n := ofDigits 10 [a, b]
      if low ≤ n ∧ n ≤ high then some (n, rest) else none
    else none
  | _ => none

def expect? : List Char → Option (List Char)
  | d :: rest => if d = c then some rest else none
  | [] => none

def daysInMonth (year month : Nat) : Nat :=
  if month = 2 then
    if year % 4 = 0 ∧ (year % 100 ≠ 0 ∨ year % 400 = 0) then 29 else 28
  else if month = 4 ∨ month = 6 ∨ month = 9 ∨ month = 11 then 30 else 31

/-- A date; its canonical text is the text itself. -/
def date? : Option (List Char × List Char) := do
  let year := cs.take 4
  if year.length ≠ 4 || !year.all Char.isDigit then none
  let (month, rest) ← two? 1 12 (← expect? '-' (cs.drop 4))
  let (day, rest) ← two? 1 31 (← expect? '-' rest)
  if daysInMonth (ofDigits 10 year) month < day then none
  return (cs.take 10, rest)

/-- A time of day. Its fraction is cut after nine digits and loses its final zeros. -/
def time? : Option (List Char × List Char) := do
  let (_, rest) ← two? 0 23 cs
  let (_, rest) ← two? 0 59 (← expect? ':' rest)
  let (_, rest) ← two? 0 60 (← expect? ':' rest)
  match rest with
  | '.' :: rest =>
    let digits := rest.takeWhile Char.isDigit
    if digits.isEmpty then none
    let kept := ((digits.take 9).reverse.dropWhile (· == '0')).reverse
    return (cs.take 8 ++ (if kept.isEmpty then [] else '.' :: kept), rest.dropWhile Char.isDigit)
  | rest => return (cs.take 8, rest)

def offset? : List Char → Option (List Char)
  | [] => some []
  | ['Z'] | ['z'] => some ['Z']
  | sign :: rest => do
    if sign ≠ '+' ∧ sign ≠ '-' then none
    let (hours, after) ← two? 0 23 rest
    let (minutes, after) ← two? 0 59 (← expect? ':' after)
    if !after.isEmpty then none
    return (if hours = 0 ∧ minutes = 0 then '+' else sign) :: rest

/-- A time of day with an offset, filling its word. -/
def timeOffset? : Option (List Char) := do
  let (time, rest) ← time? cs
  return time ++ (← offset? rest)

/-- A date alone, a date with a time, or a time alone. -/
def moment? : Option (List Char) :=
  match date? word with
  | some (date, []) => some date
  | some (date, mark :: rest) =>
    if mark = 'T' ∨ mark = 't' then (timeOffset? rest).map fun time => date ++ 'T' :: time
    else none
  | none => do
    let (time, rest) ← time? word
    if rest.isEmpty then some time else none

def word? : Option Value :=
  match word with
  | ['t', 'r', 'u', 'e'] => some (.boolean true)
  | ['f', 'a', 'l', 's', 'e'] => some (.boolean false)
  | '0' :: 'x' :: digits => based? 16 isHex digits
  | '0' :: 'o' :: digits => based? 8 isOctal digits
  | '0' :: 'b' :: digits => based? 2 isBinary digits
  | _ =>
    match moment? word with
    | some text => some (.moment (String.ofList text))
    | none => number? word

/-- A value that is no text, list or table. A date may be followed by one blank and a time. -/
def readWord : Option (Value × List Char) := do
  let word := cs.takeWhile isWord
  let rest := cs.dropWhile isWord
  let plain := (← word?  word, rest)
  match date? word, rest with
  | some (date, []), ' ' :: after =>
    match timeOffset? (after.takeWhile isWord) with
    | some time =>
      return (.moment (String.ofList (date ++ 'T' :: time)), after.dropWhile isWord)
    | none => return plain
  | _, _ => return plain

end Toml

end Foundry
