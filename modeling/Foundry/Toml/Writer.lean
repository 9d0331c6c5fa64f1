import Foundry.Number.Decimal
import Foundry.Text.Search
import Foundry.Toml.Token

/-!
# Writing configuration files

Texts are quoted in the first of six ways that fits, so that most stand as they
are. A table writes its plain values first and then its subtables, each under its
own header.
-/

namespace Foundry

variable (members : List (String × Value)) (cs : List Char)

namespace Toml

variable (cs : List Char)

/-! ## Quoting -/

/-- Characters that only an escape can write. A line end is none of them. -/
def isControl (c : Char) : Bool := (c.toNat < 0x20 && c ≠ '\n') || c.toNat == 0x7F

def hasControl : Bool := cs.any isControl

/-- The four hexadecimal digits of a character number, in capitals. -/
def upperHex (n : Nat) : List Char :=
  let digits := (Nat.toDigits 16 n).map Char.toUpper
  List.replicate (4 - digits.length) '0' ++ digits

def escape (c : Char) : List Char :=
  if c = '\x08' then ['\\', 'b']
  else if c = '\t' then ['\\', 't']
  else if c = '\n' then ['\\', 'n']
  else if c = '\x0c' then ['\\', 'f']
  else if c = '\r' then ['\\', 'r']
  else if c = '"' then ['\\', '"']
  else if c = '\\' then ['\\', '\\']
  else if isControl c then '\\' :: 'u' :: upperHex c.toNat
  else [c]

def escapeShort : List Char := cs.flatMap escape

/-- In a long text line ends stand as they are, and of the quotes only each third in a row is
escaped. -/
def escapeLong (quotes : Nat) : List Char → List Char
  | [] => []
  | c :: rest =>
    if c = '"' then
      if quotes = 2 then '\\' :: '"' :: escapeLong 0 rest
      else c :: escapeLong (quotes + 1) rest
    else if c = '\n' then c :: escapeLong 0 rest
    else escape c ++ escapeLong 0 rest

def shortQuotes (quote : Char) (cs : List Char) : List Char := quote :: (cs ++ [quote])

/-- Three quotes on either side; a text with line ends starts on a line of its own. -/
def longQuotes (quote : Char) (cs : List Char) (body : List Char) : List Char :=
  let marks := [quote, quote, quote]
  marks ++ (if cs.contains '\n' then ['\n'] else []) ++ body ++ marks

def apostrophe : Char := '\x27'

/-- Whether a text can stand between double quotes without escapes. -/
def fitsBasic : Bool :=
  !(hasControl cs || cs.contains '\\' || cs.contains '"' || cs.contains '\n')

def fitsLiteral : Bool :=
  !(hasControl cs || cs.contains apostrophe || cs.contains '\n')

def fitsLongBasic : Bool :=
  !(hasControl cs || cs.contains '\\' || Text.occursIn ['"', '"', '"'] cs)

def fitsLongLiteral : Bool :=
  !(hasControl cs || Text.occursIn [apostrophe, apostrophe, apostrophe] cs)

def quoteChars : List Char :=
  if fitsBasic cs then shortQuotes '"' cs
  else if fitsLiteral cs then shortQuotes apostrophe cs
  else if fitsLongBasic cs then longQuotes '"' cs cs
  else if fitsLongLiteral cs then longQuotes apostrophe cs cs
  else if cs.contains '\n' then longQuotes '"' cs (escapeLong 0 cs)
  else shortQuotes '"' (escapeShort cs)

def quoteName : List Char :=
  if !cs.isEmpty && cs.all isBare then cs
  else if fitsBasic cs then shortQuotes '"' cs
  else if fitsLiteral cs then shortQuotes apostrophe cs
  else shortQuotes '"' (escapeShort cs)

def nameText (name : String) : String := String.ofList (quoteName name.toList)

/-! ## Values and tables -/

mutual

/-- The text of a value that is no subtable. Lists of more than one item take a line for
each. -/
def Value.render : Value → String
  | .string text => String.ofList (quoteChars text.toList)
  | .integer n => toString n
  | .float x => Decimal.text Decimal.dotted x
  | .boolean flag => if flag then "true" else "false"
  | .moment text => text
  | .array [] => "[]"
  | .array [v] => "[" ++ v.render ++ "]"
  | .array items => "[\n" ++ renderItems items ++ "]"
  | .table members => "\x7b" ++ renderInline members ++ "\x7d"

def renderItems : List Value → String
  | [] => ""
  | v :: rest => "    " ++ v.render ++ ",\n" ++ renderItems rest

def renderInline : List (String × Value) → String
  | [] => ""
  | [(name, v)] => " " ++ nameText name ++ " = " ++ v.render ++ " "
  | (name, v) :: rest => " " ++ nameText name ++ " = " ++ v.render ++ "," ++ renderInline rest

end

def Value.isTable : Value → Bool
  | .table _ => true
  | _ => false

/-- The assignments of the members that are no tables. -/
def renderPlain : String :=
  String.join ((members.filter fun m => !m.2.isTable).map fun m =>
    nameText m.1 ++ " = " ++ m.2.render ++ "\n")

def headerText (path : List String) : String :=
  "[" ++ String.intercalate "." (path.map nameText) ++ "]\n"

mutual

/-- The sections for the subtables of a table, in order, each with those below it. -/
def sections (path : List String) : List (String × Value) → List String
  | [] => []
  | (name, v) :: rest => sectionOf (path ++ [name]) v ++ sections path rest

def sectionOf (path : List String) : Value → List String
  | .table members => (headerText path ++ renderPlain members) :: sections path members
  | _ => []

end

/-- A file: the plain values of the outermost table, then its sections, with a blank line
between. -/
def renderFile : String :=
  let plain := renderPlain members
  let parts := sections [] members
  String.intercalate "\n" (if plain.isEmpty then parts else plain :: parts)

mutual

def Value.integers : Value → List Int
  | .integer n => [n]
  | .array items => integersOf items
  | .table members => integersIn members
  | _ => []

def integersOf : List Value → List Int
  | [] => []
  | v :: rest => v.integers ++ integersOf rest

def integersIn : List (String × Value) → List Int
  | [] => []
  | (_, v) :: rest => v.integers ++ integersIn rest

end

/-- The text of a file, unless it holds a count that the format cannot write. -/
def write : Except String String :=
  if (integersIn members).all (· < 0x8000000000000000) then .ok (renderFile members)
  else .error "out-of-range value for u64 type"

end Toml

end Foundry
