import Foundry.Text.Blank
import Mathlib.Data.List.Basic

/-!
# Trimming

A trimmed text has no blank at either end, so trimming it again changes nothing. What
stands between the first and the last character that is not blank is kept as it is.
-/

namespace Foundry

open List

namespace Text

variable {α : Type} {p : α → Bool} {cs : List α}

theorem dropWhile_of_head (h : ∀ c, cs.head? = some c → p c = false) : cs.dropWhile p = cs := by
  cases cs with
  | nil => rfl
  | cons c rest => simp [h c rfl]

theorem head?_dropWhile {c : α} (h : (cs.dropWhile p).head? = some c) : p c = false := by
  have := List.head?_dropWhile_not p cs
  rw [h] at this
  simpa using this

theorem dropWhileEnd_dropWhileEnd (cs : List α) :
    dropWhileEnd p (dropWhileEnd p cs) = dropWhileEnd p cs := by
  unfold dropWhileEnd
  rw [reverse_reverse, dropWhile_of_head fun _ h => head?_dropWhile h]

theorem isPrefix_dropWhileEnd (cs : List α) : dropWhileEnd p cs <+: cs := by
  rw [← reverse_suffix]
  simpa [dropWhileEnd] using dropWhile_suffix p (l := cs.reverse)

/-- Dropping at the end leaves the first element, if it leaves anything. -/
theorem head?_dropWhileEnd {c : α} (h : (dropWhileEnd p cs).head? = some c) :
    cs.head? = some c := by
  obtain ⟨rest, hrest⟩ := isPrefix_dropWhileEnd (p := p) cs
  cases hd : dropWhileEnd p cs with
  | nil => simp [hd] at h
  | cons d ds =>
    rw [hd] at h hrest
    rw [← hrest]
    simpa using h

theorem dropWhileEnd_append (xs ys : List α) : dropWhileEnd p (xs ++ ys) =
    if dropWhileEnd p ys = [] then dropWhileEnd p xs else xs ++ dropWhileEnd p ys := by
  simp only [dropWhileEnd, reverse_append, dropWhile_append, List.isEmpty_iff,
    reverse_eq_nil_iff]
  split
  · rfl
  · rw [reverse_append, reverse_reverse]

theorem dropWhileEnd_append_of_last {xs : List α} {x : α} (h : p x = false) (ys : List α) :
    dropWhileEnd p (xs ++ x :: ys) = xs ++ x :: dropWhileEnd p ys := by
  have hlast : dropWhileEnd p [x] = [x] := by simp [dropWhileEnd, h]
  have hcons : dropWhileEnd p (x :: ys) = x :: dropWhileEnd p ys := by
    rw [← singleton_append, dropWhileEnd_append]
    split
    · rename_i hys
      rw [hlast, hys]
    · rfl
  rw [dropWhileEnd_append, hcons, if_neg (cons_ne_nil _ _)]

theorem length_dropWhileEnd_le (xs ys : List α) :
    (dropWhileEnd p ys).length ≤ (dropWhileEnd p (xs ++ ys)).length := by
  rw [dropWhileEnd_append]
  split
  · rename_i hys
    simp [hys]
  · simp

theorem trimChars_trimChars (cs : List Char) : trimChars (trimChars cs) = trimChars cs := by
  have hstart : trimStartChars (trimChars cs) = trimChars cs :=
    dropWhile_of_head fun c h => head?_dropWhile (head?_dropWhileEnd h)
  have htwice : trimChars (trimChars cs) = trimEndChars (trimStartChars (trimChars cs)) := rfl
  rw [htwice, hstart]
  exact dropWhileEnd_dropWhileEnd _

@[simp] theorem trim_trim (s : String) : trim (trim s) = trim s := by
  unfold trim
  rw [String.toList_ofList, trimChars_trimChars]

theorem trimChars_append_of_last {c : Char} (h : isBlank c = false) (before after : List Char) :
    trimChars (before ++ c :: after) = trimStartChars (before ++ [c]) ++ trimEndChars after := by
  have hstart : trimStartChars (before ++ c :: after) = trimStartChars (before ++ [c]) ++
      after := by
    simp only [trimStartChars, dropWhile_append, dropWhile_cons, h]
    split <;> simp
  -- the last character of what is left in front is `c`
  obtain ⟨kept, hkept⟩ : ∃ kept, trimStartChars (before ++ [c]) = kept ++ [c] := by
    simp only [trimStartChars, dropWhile_append, dropWhile_cons, h]
    split
    · exact ⟨[], rfl⟩
    · exact ⟨_, rfl⟩
  rw [trimChars, hstart, hkept, append_assoc, singleton_append]
  rw [trimEndChars, dropWhileEnd_append_of_last h]
  simp [trimEndChars]

end Text

end Foundry
