import Foundry.Number.Decimal
import Foundry.Text.Hex

/-!
# JSON values and their text

Values keep the order of their members, so the text written for a value is
determined by it. Two layouts are written: compact, and two blanks per level.
-/

namespace Foundry

inductive Json where
  | null
  | bool (value : Bool)
  | integer (value : Int)
  | float (value : Binary64)
  | string (value : String)
  | array (items : List Json)
  | object (members : List (String × Json))
deriving Repr, Inhabited

namespace Json

def unicodeEscape (c : Char) : List Char :=
  '\\' :: 'u' :: '0' :: '0' :: [Hex.digit (c.toNat / 16), Hex.digit (c.toNat % 16)]

def escape (c : Char) : List Char :=
  if c = '"' then ['\\', '"']
  else if c = '\\' then ['\\', '\\']
  else if c = '\x08' then ['\\', 'b']
  else if c = '\x0c' then ['\\', 'f']
  else if c = '\n' then ['\\', 'n']
  else if c = '\r' then ['\\', 'r']
  else if c = '\t' then ['\\', 't']
  else if c.toNat < 0x20 then unicodeEscape c
  else [c]

/-- A string between quotes, with everything escaped that must be. -/
def quote (s : String) : List Char := '"' :: (s.toList.flatMap escape ++ ['"'])

def literal (s : String) : List Char := s.toList

def scalar : Json → List Char
  | .null => literal "null"
  | .bool true => literal "true"
  | .bool false => literal "false"
  | .integer n => literal (toString n)
  | .float x => if x.isFinite then literal (Decimal.text Decimal.json x) else literal "null"
  | .string s => quote s
  | _ => []

def newline (level : Nat) : List Char := '\n' :: List.replicate (2 * level) ' '

/-- What is written between tokens. -/
structure Layout where
  /-- Before each element and before a closing bracket, by their level. -/
  gap : Nat → List Char
  /-- Between a colon and a value. -/
  pad : List Char

def Layout.compact : Layout := ⟨fun _ => [], []⟩

def Layout.indented : Layout := ⟨newline, [' ']⟩

mutual

def chars (layout : Layout) (level : Nat) : Json → List Char
  | .array [] => ['[', ']']
  | .array items => '[' :: (itemChars layout (level + 1) items ++ layout.gap level ++ [']'])
  | .object [] => ['\x7b', '\x7d']
  | .object members =>
      '\x7b' :: (memberChars layout (level + 1) members ++ layout.gap level ++ ['\x7d'])
  | v => scalar v

def itemChars (layout : Layout) (level : Nat) : List Json → List Char
  | [] => []
  | [v] => layout.gap level ++ chars layout level v
  | v :: rest => layout.gap level ++ chars layout level v ++ ',' :: itemChars layout level rest

def memberChars (layout : Layout) (level : Nat) : List (String × Json) → List Char
  | [] => []
  | [(k, v)] => layout.gap level ++ quote k ++ ':' :: (layout.pad ++ chars layout level v)
  | (k, v) :: rest => layout.gap level ++ quote k ++
    ':' :: (layout.pad ++ (chars layout level v ++ ',' :: memberChars layout level rest))

end

def compact (v : Json) : String := String.ofList (chars .compact 0 v)

def pretty (v : Json) : String := String.ofList (chars .indented 0 v)

end Json

end Foundry
