import Foundry.Text.Blank
import Foundry.Text.Search

/-!
# Texts with placeholders

A placeholder is `{{ name }}`. A text is first cut into an outline, literal pieces
and placeholder bodies in turn, without looking at any value. Rendering then
fills the outline: a body that names a variable is replaced by its value, every
other body is put back as it stood. Values are inserted and never scanned.
-/

namespace Foundry

/-- A text cut at its placeholders: each literal with the body that follows it, and the
literal after the last placeholder. -/
structure Outline where
  holes : List (List Char × List Char)
  tail : List Char
deriving DecidableEq, Repr

namespace Outline

def ofChars (cs : List Char) : Outline :=
  match _opened : Text.breakPair '{' cs with
  | none => ⟨[], cs⟩
  | some (literal, rest) =>
    match _closed : Text.breakPair '}' rest with
    | none => ⟨[], cs⟩
    | some (body, rest') =>
      let o := ofChars rest'
      ⟨(literal, body) :: o.holes, o.tail⟩
termination_by cs.length
decreasing_by
  have := Text.length_breakPair_lt _opened
  have := Text.length_breakPair_lt _closed
  omega

/-- The text of a placeholder as it stood. -/
def raw (body : List Char) : List Char := '{' :: '{' :: (body ++ ['}', '}'])

/-- Replace every body for which `value` answers. -/
def fill (value : List Char → Option (List Char)) (o : Outline) : List Char :=
  o.holes.flatMap (fun h => h.1 ++ (value h.2).getD (raw h.2)) ++ o.tail

end Outline

/-- Variables, the latest assignment first. -/
structure Bindings where
  latest : List (String × String) := []
deriving DecidableEq, Repr, Inhabited

namespace Bindings

def empty : Bindings := {}

/-- Assign a variable; an earlier value of the same name is shadowed. -/
def set (b : Bindings) (name value : String) : Bindings := ⟨(name, value) :: b.latest⟩

def ofList (pairs : List (String × String)) : Bindings :=
  pairs.foldl (fun b p => b.set p.1 p.2) empty

def get? (b : Bindings) (name : String) : Option String :=
  (b.latest.find? fun p => p.1 == name).map (·.2)

/-- The value that a placeholder body stands for: blanks around the name do not count. -/
def valueOf (b : Bindings) (body : List Char) : Option (List Char) :=
  (b.get? (String.ofList (Text.trimChars body))).map (·.toList)

def render (b : Bindings) (text : String) : String :=
  String.ofList ((Outline.ofChars text.toList).fill b.valueOf)

end Bindings

end Foundry
