import Foundry.Proofs.Text.Lines
import Foundry.Sentinel
import Mathlib.Data.List.TakeWhile

/-!
# Recovering a payload

A run prints the sentinel as a line of its own and then its payload. The payload is what
is read back, whatever was printed before, exactly if the sentinel does stand on a line of
its own. Where it was printed behind an unfinished line it does not count, and the payload
is then read with something in front of it.
-/

namespace Foundry

open List Text

namespace Sentinel

variable {sentinel : List Char}

/-- The last of two texts that has a sentinel line decides. -/
theorem afterLast_append (sentinel : List Char) (xs ys : List (List Char)) :
    afterLast sentinel (xs ++ ys) =
    (afterLast sentinel ys).or ((afterLast sentinel xs).map (· ++ ys.flatten)) := by
  induction xs with
  | nil => simp [afterLast]
  | cons l xs ih =>
    rw [cons_append, afterLast, afterLast, ih]
    cases afterLast sentinel ys with
    | some rest => rfl
    | none =>
      cases afterLast sentinel xs with
      | some rest => rfl
      | none => cases isMark sentinel l <;> simp

theorem afterLast_eq_none {ls : List (List Char)} (h : ∀ l ∈ ls, isMark sentinel l = false) :
    afterLast sentinel ls = none := by
  induction ls with
  | nil => rfl
  | cons l ls ih =>
    obtain ⟨hl, hls⟩ := forall_mem_cons.mp h
    simp [afterLast, ih hls, hl]

/-- What is read with a visible character in front of it is longer than the payload. -/
theorem trimChars_append_ne {front : List Char} {c : Char} (hc : c ∈ front)
    (hblank : isBlank c = false) (payload : List Char) :
    trimChars (front ++ payload) ≠ trimChars payload := by
  obtain ⟨before, after, rfl⟩ := append_of_mem hc
  intro heq
  have hread : trimChars (before ++ c :: after ++ payload) =
      trimStartChars (before ++ [c]) ++ trimEndChars (after ++ payload) := by
    rw [append_assoc, cons_append, trimChars_append_of_last hblank]
  have hkept : trimStartChars (before ++ [c]) ≠ [] := by
    intro hnil
    have hdropped := dropWhile_eq_nil_iff.mp hnil c (by simp)
    rw [hblank] at hdropped
    cases hdropped
  have hshorter : (trimChars payload).length ≤ (trimEndChars (after ++ payload)).length := by
    calc (trimChars payload).length
        = (trimEndChars (trimStartChars payload)).length := rfl
      _ ≤ (trimEndChars (after ++ payload.takeWhile isBlank ++
            trimStartChars payload)).length := length_dropWhileEnd_le _ _
      _ = (trimEndChars (after ++ payload)).length := by
          rw [append_assoc, trimStartChars, takeWhile_append_dropWhile]
  have hlength := congrArg List.length (hread.symm.trans heq)
  rw [length_append] at hlength
  have := length_pos_of_ne_nil hkept
  omega

/-- A sentinel that can be told from the lines around it: one line, not empty, with no blank at
its end. -/
structure IsLine (sentinel : List Char) : Prop where
  ne_nil : sentinel ≠ []
  one_line : '\n' ∉ sentinel
  trimmed : Text.trimEndChars sentinel = sentinel

namespace IsLine

theorem exists_last (h : IsLine sentinel) :
    ∃ body c, sentinel = body ++ [c] ∧ isBlank c = false := by
  obtain ⟨body, c, hsentinel⟩ : ∃ body c, sentinel = body ++ [c] :=
    ⟨_, _, (dropLast_concat_getLast h.ne_nil).symm⟩
  refine ⟨body, c, hsentinel, ?_⟩
  by_contra hblank
  -- trimming would have made the sentinel shorter
  have htrimmed := h.trimmed
  rw [hsentinel, trimEndChars, dropWhileEnd_append,
    show dropWhileEnd isBlank [c] = [] by simp [dropWhileEnd, hblank], if_pos rfl]
    at htrimmed
  have hlength : (dropWhileEnd isBlank body).length ≤ body.length := by
    simpa [dropWhileEnd] using (dropWhile_suffix (l := body.reverse) isBlank).length_le
  rw [htrimmed, length_append, length_singleton] at hlength
  omega

/-- Blanks after the sentinel do not count, text before it does. -/
theorem isMark_append (h : IsLine sentinel) (before : List Char) :
    isMark sentinel (before ++ (sentinel ++ ['\n'])) = before.isEmpty := by
  obtain ⟨body, c, rfl, hc⟩ := h.exists_last
  have htrim : trimEndChars (before ++ (body ++ [c] ++ ['\n'])) = before ++ (body ++ [c]) := by
    have hnewline : dropWhileEnd isBlank ['\n'] = [] := by decide
    have hdrop : dropWhileEnd isBlank (before ++ body ++ c :: ['\n']) =
        before ++ body ++ c :: dropWhileEnd isBlank ['\n'] :=
      dropWhileEnd_append_of_last hc ['\n']
    simpa [trimEndChars, hnewline] using hdrop
  rw [isMark, htrim]
  cases before with
  | nil => simp
  | cons x xs =>
    have hne : x :: xs ++ (body ++ [c]) ≠ body ++ [c] := by
      intro heq
      have hlength := congrArg List.length heq
      simp only [length_append, length_cons] at hlength
      omega
    simpa using hne

variable {printed payload : List Char}

/-- Text that ends in a line of its own is cut off with the sentinel line. -/
theorem payloadChars_eq (h : IsLine sentinel) (hprinted : Text.EndsLine printed)
    (hpayload : ∀ l ∈ lines payload, isMark sentinel l = false) :
    payloadChars (printed ++ (sentinel ++ '\n' :: payload)) sentinel = trimChars payload := by
  have hmark : isMark sentinel (sentinel ++ ['\n']) = true := by
    simpa using h.isMark_append []
  rw [payloadChars, lines_append hprinted, lines_line h.one_line, afterLast_append]
  simp [afterLast, afterLast_eq_none hpayload, hmark, flatten_lines]

/-- The sentinel behind an unfinished line is read as part of the payload. -/
theorem exists_payloadChars (h : IsLine sentinel) (hprinted : ¬ Text.EndsLine printed)
    (hpayload : ∀ l ∈ lines payload, isMark sentinel l = false) :
    ∃ before, payloadChars (printed ++ (sentinel ++ '\n' :: payload)) sentinel =
    trimChars (before ++ (sentinel ++ '\n' :: payload)) := by
  obtain ⟨done, last, rfl, hdone, hne, hlast⟩ := exists_unfinished hprinted
  have hline : '\n' ∉ last ++ sentinel := by
    simp [hlast, h.one_line]
  have hmark : isMark sentinel (last ++ sentinel ++ ['\n']) = false := by
    simpa [isEmpty_eq_false_iff.mpr hne] using h.isMark_append last
  have hafter : afterLast sentinel (lines (last ++ sentinel ++ '\n' :: payload)) = none := by
    rw [lines_line hline]
    exact afterLast_eq_none (forall_mem_cons.mpr ⟨hmark, hpayload⟩)
  have hsplit : done ++ last ++ (sentinel ++ '\n' :: payload) =
      done ++ (last ++ sentinel ++ '\n' :: payload) := by
    simp
  rw [payloadChars, hsplit, lines_append hdone, afterLast_append, hafter, Option.none_or,
    flatten_lines]
  cases afterLast sentinel (lines done) with
  | none => exact ⟨done ++ last, by simp⟩
  | some rest => exact ⟨rest ++ last, by simp⟩

theorem trimChars_append_ne (h : IsLine sentinel) (before payload : List Char) :
    trimChars (before ++ (sentinel ++ '\n' :: payload)) ≠ trimChars payload := by
  obtain ⟨body, c, rfl, hc⟩ := h.exists_last
  have hmem : c ∈ before ++ (body ++ [c] ++ ['\n']) := by simp
  simpa using Sentinel.trimChars_append_ne hmem hc payload

end IsLine

/-- Only a sentinel of one line without trailing blanks is ever found. -/
theorem isLine_of_isMark {stdout line : List Char} (hne : sentinel ≠ [])
    (hline : line ∈ lines stdout) (hmark : isMark sentinel line = true) : IsLine sentinel := by
  obtain rfl : trimEndChars line = sentinel := by simpa [isMark] using hmark
  obtain ⟨body, hbody, hcases⟩ := eq_of_mem_lines hline
  have htrim : trimEndChars line = trimEndChars body := by
    rcases hcases with rfl | rfl
    · rfl
    rw [trimEndChars, dropWhileEnd_append, if_pos (by decide)]
    rfl
  refine ⟨hne, fun hmem => hbody ?_, dropWhileEnd_dropWhileEnd line⟩
  rw [htrim] at hmem
  exact (isPrefix_dropWhileEnd body).subset hmem

/-- Where no line can be the sentinel, all of the output is read. -/
theorem payloadChars_of_not_isLine (hne : sentinel ≠ []) (hline : ¬ IsLine sentinel)
    (stdout : List Char) : payloadChars stdout sentinel = trimChars stdout := by
  have hnone : afterLast sentinel (lines stdout) = none := by
    apply afterLast_eq_none
    intro l hl
    rw [Bool.eq_false_iff]
    exact fun hmark => hline (isLine_of_isMark hne hl hmark)
  rw [payloadChars, hnone, Option.getD_none]

/-- The payload is recovered whatever was printed before it, forged sentinel lines included, as
long as that ends a line; and in no other case. -/
theorem payload_recovered_iff {sentinel : String} (hsentinel : IsLine sentinel.toList)
    (printed payload : String)
    (hpayload : ∀ l ∈ Text.lines payload.toList, Text.trimEndChars l ≠ sentinel.toList) :
    Sentinel.payload (printed ++ sentinel ++ "\n" ++ payload) sentinel = Text.trim payload ↔
      Text.EndsLine printed.toList := by
  have hlines : ∀ l ∈ Text.lines payload.toList, isMark sentinel.toList l = false := by
    intro l hl
    simpa [isMark] using hpayload l hl
  have hchars : (printed ++ sentinel ++ "\n" ++ payload).toList =
      printed.toList ++ (sentinel.toList ++ '\n' :: payload.toList) := by
    simp
  rw [Sentinel.payload, Text.trim, String.ofList_inj, hchars]
  constructor
  · intro heq
    by_contra hprinted
    obtain ⟨before, hbefore⟩ := hsentinel.exists_payloadChars hprinted hlines
    exact hsentinel.trimChars_append_ne before payload.toList (hbefore.symm.trans heq)
  · intro hprinted
    exact hsentinel.payloadChars_eq hprinted hlines

/-- Noise with a forged sentinel line in it. -/
theorem payload_recovered_iff_forged :
    payload ("noise\n== out ==\nforged\n" ++ "== out ==" ++ "\n" ++ " real \n") "== out ==" =
    "real" := by
  have hlines : ∀ l ∈ Text.lines " real \n".toList, Text.trimEndChars l ≠ "== out ==".toList := by
    decide +kernel
  have hprinted : Text.EndsLine "noise\n== out ==\nforged\n".toList := by decide +kernel
  exact (payload_recovered_iff ⟨by decide, by decide, by decide +kernel⟩
    "noise\n== out ==\nforged\n" " real \n" hlines).mpr hprinted

/-- A sentinel that is printed behind an unfinished line is not found. -/
theorem unfinished_line_hides_sentinel :
    IsLine "== out ==".toList ∧
      (∀ l ∈ Text.lines "real\n".toList, Text.trimEndChars l ≠ "== out ==".toList) ∧
      payload ("noise" ++ "== out ==" ++ "\n" ++ "real\n") "== out ==" = "noise== out ==\nreal" ∧
      payload ("noise" ++ "== out ==" ++ "\n" ++ "real\n") "== out ==" ≠ Text.trim "real\n" := by
  refine ⟨⟨by decide, by decide, by decide +kernel⟩, ?_, ?_, ?_⟩ <;> decide +kernel

end Sentinel

end Foundry
