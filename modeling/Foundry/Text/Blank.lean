/-!
# Blank characters

The characters with the Unicode property `White_Space`, and the three ways of
trimming a text by them. Every trimming in the library goes through this
module, so two texts are "equal up to surrounding blanks" in one sense only.
-/

namespace Foundry

namespace Text

/-- The inclusive code point ranges of `White_Space`. -/
def blankRanges : List (Nat × Nat) :=
  [(0x09, 0x0D), (0x20, 0x20), (0x85, 0x85), (0xA0, 0xA0), (0x1680, 0x1680),
   (0x2000, 0x200A), (0x2028, 0x2029), (0x202F, 0x202F), (0x205F, 0x205F), (0x3000, 0x3000)]

def isBlank (c : Char) : Bool :=
  blankRanges.any fun r => r.1 ≤ c.toNat && c.toNat ≤ r.2

/-- Drop the longest suffix of characters that satisfy `p`. -/
def dropWhileEnd {α : Type} (p : α → Bool) (cs : List α) : List α :=
  (cs.reverse.dropWhile p).reverse

def trimStartChars (cs : List Char) : List Char := cs.dropWhile isBlank

def trimEndChars (cs : List Char) : List Char := dropWhileEnd isBlank cs

def trimChars (cs : List Char) : List Char := trimEndChars (trimStartChars cs)

def trim (s : String) : String := String.ofList (trimChars s.toList)

def trimEnd (s : String) : String := String.ofList (trimEndChars s.toList)

@[simp] theorem toList_trimEnd (s : String) : (trimEnd s).toList = trimEndChars s.toList := by
  simp [trimEnd]

end Text

end Foundry
