import Foundry.Text.Hex
import Foundry.Text.Printable

/-!
# Quoted text for diagnostics

A text between double quotes, in which every character that would not show is
written as an escape.
-/

namespace Foundry

namespace Text

/-- A code point in braces, with as few hexadecimal digits as it needs. -/
def codePointEscape (c : Char) : List Char :=
  '\\' :: 'u' :: '\x7b' :: (Nat.toDigits 16 c.toNat ++ ['\x7d'])

def debugEscape (c : Char) : List Char :=
  if c = '\x00' then ['\\', '0']
  else if c = '\t' then ['\\', 't']
  else if c = '\r' then ['\\', 'r']
  else if c = '\n' then ['\\', 'n']
  else if c = '\\' then ['\\', '\\']
  else if c = '"' then ['\\', '"']
  else if !isPrintable c then codePointEscape c
  else [c]

def debugQuote (s : String) : String :=
  String.ofList ('"' :: (s.toList.flatMap debugEscape ++ ['"']))

end Text

end Foundry
