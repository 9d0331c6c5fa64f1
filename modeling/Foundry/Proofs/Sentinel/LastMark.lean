import Foundry.Proofs.Sentinel.Recovery
import Mathlib.Data.List.Induction

/-!
# The last sentinel line

Of the sentinel lines of an output the last one counts, and the payload is what follows it.
One scan over the lines finds it: the bytes of the lines are added up, and the sum is noted
where a line is the sentinel. Sums of whole lines fall between characters, so the payload can
be taken from the noted byte on.
-/

namespace Foundry

namespace Sentinel

open Text (lines EndsLine trimEndChars)

theorem payload_eq (stdout sentinel : String) : payload stdout sentinel =
    Text.trim (String.ofList ((afterLast sentinel.toList (lines stdout.toList)).getD stdout.toList))
    := by
  rw [payload, payloadChars, Text.trim, String.toList_ofList]

/-- How many bytes have been read, and the byte that the payload starts from. -/
structure Scan where
  read : Nat
  cut : Nat

def Scan.step (sentinel : List Char) (s : Scan) (line : List Char) : Scan :=
  let read := s.read + (String.ofList line).utf8ByteSize
  ⟨read, if isMark sentinel line then read else s.cut⟩

def scan (sentinel : List Char) (ls : List (List Char)) : Scan :=
  ls.foldl (Scan.step sentinel) ⟨0, 0⟩

/-- A scan has read whole lines, and its cut is where the last sentinel line among them ended. -/
theorem exists_scan_eq (sentinel : List Char) (ls : List (List Char)) :
    (scan sentinel ls).read = (String.ofList ls.flatten).utf8ByteSize ∧
    ∃ before, ls.flatten = before ++ (afterLast sentinel ls).getD ls.flatten ∧
    (scan sentinel ls).cut = (String.ofList before).utf8ByteSize := by
  induction ls using List.reverseRecOn with
  | nil => exact ⟨rfl, [], rfl, rfl⟩
  | append_singleton ls line ih =>
    obtain ⟨hread, before, hflatten, hcut⟩ := ih
    have hstep : scan sentinel (ls ++ [line]) = (scan sentinel ls).step sentinel line := by
      simp [scan]
    have hread' : (scan sentinel (ls ++ [line])).read =
        (String.ofList (ls ++ [line]).flatten).utf8ByteSize := by
      simp [hstep, Scan.step, hread]
    refine ⟨hread', ?_⟩
    rw [afterLast_append]
    cases hmark : isMark sentinel line with
    | true =>
      refine ⟨(ls ++ [line]).flatten, by simp [afterLast, hmark], ?_⟩
      rw [← hread', hstep, Scan.step, hmark]
      rfl
    | false =>
      have hrest : ((afterLast sentinel ls).map (· ++ [line].flatten)).getD (ls ++ [line]).flatten =
          (afterLast sentinel ls).getD ls.flatten ++ line := by
        cases afterLast sentinel ls <;> simp
      refine ⟨before, ?_, by simpa [hstep, Scan.step, hmark] using hcut⟩
      rw [show afterLast sentinel [line] = none by simp [afterLast, hmark], Option.none_or, hrest,
        ← List.append_assoc, ← hflatten]
      simp

/-- Whole characters end where another one starts. -/
theorem isValid_of_toList {s : String} {before after : List Char} (h : s.toList = before ++ after) :
    (⟨(String.ofList before).utf8ByteSize⟩ : String.Pos.Raw).IsValid s := by
  refine String.Pos.Raw.isValid_iff_exists_append.mpr ⟨String.ofList before, String.ofList after,
    ?_, rfl⟩
  rw [← String.ofList_append, ← h, String.ofList_toList]

/-- The payload is all of the output if no line of it is the sentinel, and otherwise what follows
the last such line. The scan never stands inside a character, and the payload is what follows its
last cut. What is before a sentinel line has no effect. -/
theorem payload_follows_last_mark (stdout sentinel : String) :
    ((∀ l ∈ lines stdout.toList, trimEndChars l ≠ sentinel.toList) →
      payload stdout sentinel = Text.trim stdout) ∧
    (∀ before line after, lines stdout.toList = before ++ line :: after →
      trimEndChars line = sentinel.toList → (∀ l ∈ after, trimEndChars l ≠ sentinel.toList) →
        payload stdout sentinel = Text.trim (String.ofList after.flatten)) ∧
    (∀ done rest, lines stdout.toList = done ++ rest →
      (⟨(scan sentinel.toList done).read⟩ : String.Pos.Raw).IsValid stdout ∧
        (⟨(scan sentinel.toList done).cut⟩ : String.Pos.Raw).IsValid stdout) ∧
    (∃ before after, stdout = before ++ after ∧
      before.utf8ByteSize = (scan sentinel.toList (lines stdout.toList)).cut ∧
        payload stdout sentinel = Text.trim after) ∧
    ∀ earlier later : String, EndsLine earlier.toList →
      (∃ line rest, lines later.toList = line :: rest ∧ trimEndChars line = sentinel.toList) →
        payload (earlier ++ later) sentinel = payload later sentinel := by
  have hnone (ls : List (List Char)) (h : ∀ l ∈ ls, trimEndChars l ≠ sentinel.toList) :
      afterLast sentinel.toList ls = none :=
    afterLast_eq_none fun l hl => by simpa [isMark] using h l hl
  refine ⟨fun hno => ?_, fun before line after hlines hmark hafter => ?_,
    fun done rest hlines => ?_, ?_, ?_⟩
  · rw [payload_eq, hnone _ hno, Option.getD_none, String.ofList_toList]
  · rw [payload_eq, hlines, afterLast_append, afterLast, hnone after hafter]
    simp [isMark, hmark]
  · obtain ⟨hread, before, hdone, hcut⟩ := exists_scan_eq sentinel.toList done
    have hstdout : stdout.toList = done.flatten ++ rest.flatten := by
      rw [← List.flatten_append, ← hlines, Text.flatten_lines]
    have hbefore : stdout.toList =
        before ++ ((afterLast sentinel.toList done).getD done.flatten ++ rest.flatten) := by
      rw [hstdout, ← List.append_assoc, ← hdone]
    exact ⟨hread ▸ isValid_of_toList hstdout, hcut ▸ isValid_of_toList hbefore⟩
  · obtain ⟨-, before, hstdout, hcut⟩ := exists_scan_eq sentinel.toList (lines stdout.toList)
    rw [Text.flatten_lines] at hstdout
    refine ⟨String.ofList before, String.ofList _, ?_, hcut.symm, payload_eq stdout sentinel⟩
    rw [← String.ofList_append, ← hstdout, String.ofList_toList]
  · rintro earlier later hearlier ⟨line, after, hlines, hmark⟩
    -- a first line that counts leaves nothing to what was printed before it
    obtain ⟨rest, hrest⟩ : ∃ rest, afterLast sentinel.toList (lines later.toList) = some rest := by
      rw [hlines, afterLast]
      split
      · exact ⟨_, rfl⟩
      · exact ⟨after.flatten, by simp [isMark, hmark]⟩
    rw [payload_eq, payload_eq, String.toList_append, Text.lines_append hearlier, afterLast_append,
      hrest]
    rfl

/-- A line without the sentinel, and a sentinel line with blanks at its end after a forged one. -/
theorem payload_follows_last_mark_forged :
    payload "é\n" "== out ==" = "é" ∧ payload "== out == \r\nreal\n" "== out ==" = "real" ∧
    payload ("é\n== out ==\nforged\n" ++ "== out == \r\nreal\n") "== out ==" =
      payload "== out == \r\nreal\n" "== out ==" := by
  have hlines : lines "== out == \r\nreal\n".toList =
      ["== out == \r\n".toList, "real\n".toList] := by
    decide +kernel
  have hmark : trimEndChars "== out == \r\n".toList = "== out ==".toList := by decide +kernel
  have hall := (payload_follows_last_mark "é\n" "== out ==").1 (by decide +kernel)
  have hlast := (payload_follows_last_mark _ _).2.1 [] _ _ hlines hmark (by decide +kernel)
  exact ⟨hall.trans (by decide +kernel), hlast.trans (by decide +kernel),
    (payload_follows_last_mark "" _).2.2.2.2 _ _ (by decide +kernel) ⟨_, _, hlines, hmark⟩⟩

end Sentinel

end Foundry
