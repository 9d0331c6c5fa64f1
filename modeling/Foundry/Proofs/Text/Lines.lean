import Foundry.Proofs.Text.Blank
import Foundry.Text.Search

/-!
# Lines

A text is the concatenation of its lines. A text that ends a line can be cut off without
any effect on the lines of what follows it; in every other text there is an unfinished
line, to which whatever follows is added.
-/

namespace Foundry

open List

namespace Text

variable {cs : List Char}

/-- Whatever follows the text starts a line of its own. -/
def EndsLine (cs : List Char) : Prop := cs = [] ∨ cs.getLast? = some '\n'

instance (cs : List Char) : Decidable (EndsLine cs) := inferInstanceAs (Decidable (_ ∨ _))

theorem lines_cons_of_ne {c : Char} (hc : c ≠ '\n') (rest : List Char) :
    lines (c :: rest) = (c :: (lines rest).headD []) :: (lines rest).tail := by
  rw [lines, if_neg hc]
  cases lines rest with
  | nil => rfl
  | cons l ls => rfl

theorem lines_newline_cons (rest : List Char) : lines ('\n' :: rest) = ['\n'] :: lines rest := by
  rw [lines, if_pos rfl]

theorem flatten_lines (cs : List Char) : (lines cs).flatten = cs := by
  induction cs with
  | nil => rfl
  | cons c rest ih =>
    by_cases hc : c = '\n'
    · rw [hc, lines_newline_cons, flatten_cons, ih]
      rfl
    rw [lines_cons_of_ne hc]
    cases hl : lines rest with
    | nil =>
      rw [hl] at ih
      simp [← ih]
    | cons l ls =>
      rw [hl] at ih
      simp [← ih]

theorem lines_append_newline (cs rest : List Char) :
    lines (cs ++ '\n' :: rest) = lines (cs ++ ['\n']) ++ lines rest := by
  induction cs with
  | nil => simp only [nil_append, lines_newline_cons]; rfl
  | cons c cs ih =>
    by_cases hc : c = '\n'
    · simp [hc, lines_newline_cons, ih]
    -- a newline stands in the rest, so its first line is there
    have hne : lines (cs ++ ['\n']) ≠ [] := by
      intro hnil
      have hflat := flatten_lines (cs ++ ['\n'])
      simp [hnil] at hflat
    obtain ⟨l, ls, hl⟩ := exists_cons_of_ne_nil hne
    simp [lines_cons_of_ne hc, ih, hl]

/-- Lines are cut where a line ends. -/
theorem lines_append (h : EndsLine cs) (rest : List Char) :
    lines (cs ++ rest) = lines cs ++ lines rest := by
  rcases h with rfl | h
  · rfl
  obtain ⟨body, rfl⟩ := List.getLast?_eq_some_iff.mp h
  rw [append_assoc, singleton_append, lines_append_newline]

/-- Text without a newline, and the newline after it, make one line. -/
theorem lines_line (h : '\n' ∉ cs) (rest : List Char) :
    lines (cs ++ '\n' :: rest) = (cs ++ ['\n']) :: lines rest := by
  induction cs with
  | nil => exact lines_newline_cons rest
  | cons c cs ih =>
    have hc : c ≠ '\n' := Ne.symm (ne_of_not_mem_cons h)
    rw [cons_append, lines_cons_of_ne hc, ih (not_mem_of_not_mem_cons h)]
    rfl

theorem lines_of_notMem (hne : cs ≠ []) (h : '\n' ∉ cs) : lines cs = [cs] := by
  induction cs with
  | nil => exact absurd rfl hne
  | cons c cs ih =>
    rw [lines_cons_of_ne (Ne.symm (ne_of_not_mem_cons h))]
    cases cs with
    | nil => rfl
    | cons d ds => rw [ih (cons_ne_nil d ds) (not_mem_of_not_mem_cons h)]; rfl

/-- A text that does not end a line has an unfinished one after those that are finished. -/
theorem exists_unfinished (h : ¬ EndsLine cs) :
    ∃ done last, cs = done ++ last ∧ EndsLine done ∧ last ≠ [] ∧ '\n' ∉ last := by
  induction cs with
  | nil => exact absurd (.inl rfl) h
  | cons c cs ih =>
    by_cases hcs : EndsLine cs
    · -- only an empty rest is left, or `c :: cs` would end a line as well
      obtain rfl : cs = [] := by
        refine hcs.resolve_right fun hlast => h (.inr ?_)
        cases cs with
        | nil => cases hlast
        | cons d ds => rwa [List.getLast?_cons_cons]
      refine ⟨[], [c], rfl, .inl rfl, cons_ne_nil c [], ?_⟩
      intro hmem
      obtain rfl := mem_singleton.mp hmem
      exact h (.inr rfl)
    · obtain ⟨done, last, rfl, hdone, hne, hlast⟩ := ih hcs
      by_cases hc : done = [] ∧ c ≠ '\n'
      · obtain ⟨rfl, hc⟩ := hc
        refine ⟨[], c :: last, rfl, .inl rfl, cons_ne_nil c last, ?_⟩
        exact not_mem_cons_of_ne_of_not_mem (Ne.symm hc) hlast
      · refine ⟨c :: done, last, rfl, .inr ?_, hne, hlast⟩
        cases done with
        | nil => simpa using hc
        | cons d ds => exact hdone.resolve_left (cons_ne_nil d ds)

/-- A newline stands nowhere in a line but at its end. -/
theorem eq_of_mem_lines {line : List Char} (h : line ∈ lines cs) :
    ∃ body, '\n' ∉ body ∧ (line = body ∨ line = body ++ ['\n']) := by
  induction cs generalizing line with
  | nil => cases h
  | cons c rest ih =>
    by_cases hc : c = '\n'
    · rw [hc, lines_newline_cons, mem_cons] at h
      rcases h with rfl | h
      · exact ⟨[], not_mem_nil, .inr rfl⟩
      · exact ih h
    · rw [lines_cons_of_ne hc, mem_cons] at h
      rcases h with rfl | h
      · -- the first line of the rest, if there is one, gets a character in front
        cases hl : lines rest with
        | nil => exact ⟨[c], by simpa using Ne.symm hc, .inl rfl⟩
        | cons first more =>
          obtain ⟨body, hbody, hfirst⟩ := @ih first (by simp [hl])
          refine ⟨c :: body, not_mem_cons_of_ne_of_not_mem (Ne.symm hc) hbody, ?_⟩
          rcases hfirst with rfl | rfl
          · exact .inl rfl
          · exact .inr rfl
      · exact ih (mem_of_mem_tail h)

end Text

end Foundry
