import Foundry.Shell.Pattern

/-!
# Regular expressions

Basic expressions, and extended ones as far as single characters go: a character, a
point or a bracket, repeated or not, with anchors at both ends.
-/

namespace Foundry

namespace Regex

open Shell.Pattern (Member)

inductive Atom where
  | one (c : Char)
  | any
  | among (negated : Bool) (members : List Member)
deriving DecidableEq, Repr, Inhabited

/-- How often an atom may come: at least once or not, and more often or not. -/
inductive Item where
  | once (a : Atom)
  | star (a : Atom)
  | plus (a : Atom)
  | optional (a : Atom)
deriving DecidableEq, Repr, Inhabited

structure Expression where
  atStart : Bool := false
  atEnd : Bool := false
  items : List Item := []
deriving DecidableEq, Repr, Inhabited

def Atom.accepts (ignoreCase : Bool) (a : Atom) (c : Char) : Bool :=
  let same := fun (x y : Char) => x == y || (ignoreCase && x.toLower == y.toLower)
  match a with
  | .one x => same x c
  | .any => true
  | .among negated members =>
    (members.any fun m =>
      m.contains c || (ignoreCase && (m.contains c.toLower || m.contains c.toUpper))) != negated

/-- The atom that a text starts with. -/
def readAtom : List Char → Option (Atom × List Char)
  | [] => none
  | '.' :: rest => some (.any, rest)
  | '\\' :: c :: rest => some (.one c, rest)
  | '[' :: rest =>
    match Shell.Pattern.readBracket? (rest.map fun c => (c, c == '!')) with
    | some (.among negated members, rest) => some (.among negated members, rest.map (·.1))
    | _ => some (.one '[', rest)
  | c :: rest => some (.one c, rest)

def readItems (extended : Bool) : Nat → List Char → List Item × Bool
  | 0, _ => ([], false)
  | _ + 1, [] => ([], false)
  | _ + 1, ['$'] => ([], true)
  | fuel + 1, cs =>
    match readAtom cs with
    | none => ([], false)
    | some (a, rest) =>
      let (item, rest) := match rest, extended with
        | '*' :: rest, _ => (Item.star a, rest)
        | '+' :: rest, true | '\\' :: '+' :: rest, false => (.plus a, rest)
        | '?' :: rest, true | '\\' :: '?' :: rest, false => (.optional a, rest)
        | rest, _ => (.once a, rest)
      let (items, atEnd) := readItems extended fuel rest
      (item :: items, atEnd)

def ofText (extended : Bool) (s : String) : Expression :=
  let (atStart, cs) := match s.toList with
    | '^' :: rest => (true, rest)
    | cs => (false, cs)
  -- a star with nothing before it stands for itself
  let (first, cs) := match cs with
    | '*' :: rest => ([Item.once (.one '*')], rest)
    | cs => ([], cs)
  let (items, atEnd) := readItems extended (cs.length + 1) cs
  { atStart, atEnd, items := first ++ items }

def literal (s : String) : Expression := { items := s.toList.map fun c => .once (.one c) }

/-- Texts that remain after as many atoms as possible, from none on. -/
def runs (ignoreCase : Bool) (a : Atom) : List Char → List (List Char)
  | [] => [[]]
  | c :: rest => (c :: rest) :: if a.accepts ignoreCase c then runs ignoreCase a rest else []

/-- Whether items describe the start of a text, or all of it. -/
def matchItems (ignoreCase toEnd : Bool) : List Item → List Char → Bool
  | [], cs => !toEnd || cs.isEmpty
  | .once a :: items, cs =>
    match cs with
    | [] => false
    | c :: rest => a.accepts ignoreCase c && matchItems ignoreCase toEnd items rest
  | .star a :: items, cs =>
    (runs ignoreCase a cs).any fun rest => matchItems ignoreCase toEnd items rest
  | .plus a :: items, cs =>
    match cs with
    | [] => false
    | c :: rest =>
      a.accepts ignoreCase c &&
        (runs ignoreCase a rest).any fun rest => matchItems ignoreCase toEnd items rest
  | .optional a :: items, cs =>
    matchItems ignoreCase toEnd items cs ||
      match cs with
      | [] => false
      | c :: rest => a.accepts ignoreCase c && matchItems ignoreCase toEnd items rest

/-- Whether an expression finds something in a line. -/
def Expression.finds (e : Expression) (ignoreCase : Bool) (line : List Char) : Bool :=
  if e.atStart then matchItems ignoreCase e.atEnd e.items line
  else (Shell.Pattern.tails line).any fun rest => matchItems ignoreCase e.atEnd e.items rest

end Regex

end Foundry
