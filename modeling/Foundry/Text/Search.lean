/-!
# Searching in character lists

Leftmost occurrences. `breakPair` cuts a text at the first doubled delimiter and
`occursIn` decides whether one text stands inside another.
-/

namespace Foundry

namespace Text

/-- The text before and after the first place where `d` stands twice in a row. -/
def breakPair (d : Char) : List Char → Option (List Char × List Char)
  | a :: b :: rest =>
    if a = d ∧ b = d then some ([], rest)
    else (breakPair d (b :: rest)).map fun r => (a :: r.1, r.2)
  | _ => none

theorem breakPair_eq_append {d : Char} {cs before after : List Char}
    (h : breakPair d cs = some (before, after)) : cs = before ++ d :: d :: after := by
  fun_induction breakPair d cs generalizing before after with
  | case1 a b rest hd =>
    obtain ⟨rfl, rfl⟩ := hd
    obtain ⟨rfl, rfl⟩ : [] = before ∧ rest = after := by simpa using h
    rfl
  | case2 a b rest hd ih =>
    obtain ⟨r, hr, hra⟩ := Option.map_eq_some_iff.1 h
    obtain ⟨rfl, rfl⟩ : a :: r.1 = before ∧ r.2 = after := by simpa using hra
    simp [ih hr]
  | case3 => simp at h

theorem length_breakPair_lt {d : Char} {cs before after : List Char}
    (h : breakPair d cs = some (before, after)) : after.length < cs.length := by
  rw [breakPair_eq_append h]
  simp
  omega

/-- Whether `needle` stands somewhere in `hay`. -/
def occursIn {α : Type} [BEq α] (needle : List α) : List α → Bool
  | [] => needle.isEmpty
  | c :: rest => needle.isPrefixOf (c :: rest) || occursIn needle rest

/-- The text split after every newline, so that the pieces concatenate to the text. -/
def lines : List Char → List (List Char)
  | [] => []
  | c :: rest =>
    if c = '\n' then [c] :: lines rest
    else match lines rest with
      | [] => [[c]]
      | l :: ls => (c :: l) :: ls

end Text

end Foundry
