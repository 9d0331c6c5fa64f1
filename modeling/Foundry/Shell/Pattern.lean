/-!
# Patterns of the shell

A pattern is read off characters that may have been quoted; only those that were not
have a meaning of their own.
-/

namespace Foundry

namespace Shell

/-- A character, and whether it stands for itself. -/
abbrev Glyph := Char × Bool

namespace Pattern

inductive Member where
  | range (low high : Char)
  | kind (name : String)
deriving DecidableEq, Repr, Inhabited

inductive Item where
  | one (c : Char)
  | any
  | many
  | among (negated : Bool) (members : List Member)
deriving DecidableEq, Repr, Inhabited

def isOfKind (name : String) (c : Char) : Bool :=
  if name = "alpha" then c.isAlpha
  else if name = "digit" then c.isDigit
  else if name = "alnum" then c.isAlphanum
  else if name = "upper" then c.isUpper
  else if name = "lower" then c.isLower
  else if name = "space" then " \t\n\x0b\x0c\r".toList.contains c
  else if name = "blank" then c == ' ' || c == '\t'
  else if name = "punct" then '!' ≤ c && c ≤ '~' && !c.isAlphanum
  else if name = "cntrl" then c < ' ' || c == '\x7f'
  else if name = "xdigit" then c.isDigit || ('a' ≤ c && c ≤ 'f') || ('A' ≤ c && c ≤ 'F')
  else if name = "print" then ' ' ≤ c && c ≤ '~'
  else if name = "graph" then '!' ≤ c && c ≤ '~'
  else false

def Member.contains (m : Member) (c : Char) : Bool :=
  match m with
  | .range low high => low ≤ c && c ≤ high
  | .kind name => isOfKind name c

/-- The name of a class such as `[:alpha:]`, after its opening. -/
def kindName? (gs : List Glyph) : Option (String × List Glyph) :=
  let name := gs.takeWhile fun g => g.1.isAlpha
  match gs.drop name.length with
  | (':', _) :: (']', _) :: rest => some (String.ofList (name.map (·.1)), rest)
  | _ => none

/-- The members of a bracket up to its end. The first character is never the end. -/
def readMembers : Nat → Bool → List Glyph → Option (List Member × List Glyph)
  | 0, _, _ => none
  | fuel + 1, isFirst, gs =>
    match gs with
    | [] => none
    | (']', false) :: rest =>
      if isFirst then
        (readMembers fuel false rest).map fun r => (.range ']' ']' :: r.1, r.2)
      else some ([], rest)
    | ('[', false) :: (':', _) :: rest =>
      match kindName? rest with
      | some (name, rest) =>
        (readMembers fuel false rest).map fun r => (.kind name :: r.1, r.2)
      | none =>
        (readMembers fuel false ((':', true) :: rest)).map fun r => (.range '[' '[' :: r.1, r.2)
    | (a, _) :: ('-', false) :: (b, q) :: rest =>
      if b == ']' && !q then
        (readMembers fuel false (('-', true) :: (b, q) :: rest)).map fun r =>
          (.range a a :: r.1, r.2)
      else (readMembers fuel false rest).map fun r => (.range a b :: r.1, r.2)
    | (a, _) :: rest => (readMembers fuel false rest).map fun r => (.range a a :: r.1, r.2)

def readBracket? (gs : List Glyph) : Option (Item × List Glyph) :=
  let (negated, inner) := match gs with
    | ('!', false) :: rest | ('^', false) :: rest => (true, rest)
    | _ => (false, gs)
  (readMembers (inner.length + 1) true inner).map fun r => (.among negated r.1, r.2)

def itemsOf : Nat → List Glyph → List Item
  | 0, _ => []
  | fuel + 1, gs =>
    match gs with
    | [] => []
    | ('*', false) :: rest => .many :: itemsOf fuel rest
    | ('?', false) :: rest => .any :: itemsOf fuel rest
    | ('[', false) :: rest =>
      match readBracket? rest with
      | some (item, rest) => item :: itemsOf fuel rest
      | none => .one '[' :: itemsOf fuel rest
    | (c, _) :: rest => .one c :: itemsOf fuel rest

def ofGlyphs (gs : List Glyph) : List Item := itemsOf (gs.length + 1) gs

/-- All ends of a text, the longest first. -/
def tails : List Char → List (List Char)
  | [] => [[]]
  | c :: rest => (c :: rest) :: tails rest

def describes : List Item → List Char → Bool
  | [], cs => cs.isEmpty
  | .many :: items, cs => (tails cs).any fun rest => describes items rest
  | .any :: items, cs =>
    match cs with
    | [] => false
    | _ :: rest => describes items rest
  | .one c :: items, cs =>
    match cs with
    | [] => false
    | d :: rest => c == d && describes items rest
  | .among negated members :: items, cs =>
    match cs with
    | [] => false
    | d :: rest => (members.any fun m => m.contains d) != negated && describes items rest

/-- Whether a pattern can describe more than one text. -/
def isActive (gs : List Glyph) : Bool :=
  gs.any fun g => !g.2 && (g.1 == '*' || g.1 == '?' || g.1 == '[')

/-- What is left of a text without the described part at its start or end. -/
def strip (items : List Item) (fromEnd longest : Bool) (cs : List Char) : List Char :=
  -- the lengths of the part that stays, in the order in which they are tried
  let lengths := List.range (cs.length + 1)
  if fromEnd then
    let order := if longest then lengths else lengths.reverse
    match order.find? fun n => describes items (cs.drop n) with
    | some n => cs.take n
    | none => cs
  else
    let order := if longest then lengths.reverse else lengths
    match order.find? fun n => describes items (cs.take n) with
    | some n => cs.drop n
    | none => cs

end Pattern

end Shell

end Foundry
