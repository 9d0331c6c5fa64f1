import Foundry.Cache.Entry
import Foundry.Proofs.Json.Objects

/-!
# Entries are read back

The text written for an entry is read as that entry. Only its time goes through a
conversion of its own: an entry whose time does not read as a time is refused, and
nothing else can go wrong. So what a reader finds in a whole entry file is the source
and the output that the writer put there.
-/

namespace Foundry

namespace Json

/-- A member whose key is known is read by its field. -/
theorem readKeyed_cons {σ : Type} {fields : List (Field σ)} {m : String × Json}
    {more : List (String × Json)} {i : Nat} {field : Field σ} {found : Found σ}
    {gap pad rest : Bytes} {write : Json → List Char} {first : Bool} {fuel : Nat} (hgap : IsGap gap)
    (hfind : findField fields m.1 = some (i, field))
    (hfree : ((found[i]?).getD none).isSome = false) :
    readKeyed fields first found (fuel + 1) (memberBytes gap pad write first (m :: more) ++ rest) =
    (field.read (pad ++ (utf8 (write m.2) ++ (memberBytes gap pad write false more ++ rest))) >>=
    fun r => readKeyed fields false (found.set i (some r.1)) fuel r.2) := by
  have hcolon : ∀ bytes, scanColon (58 :: bytes) = .ok bytes := fun _ => rfl
  simp [memberBytes, utf8_quote, readKeyed, nextKey_gap hgap, scanString_escaped, bind, Except.bind,
    hfind, hfree, hcolon]

end Json

namespace Entry

open Json

theorem readTextMember_quote (s : String) (rest : Bytes) :
    readTextMember (utf8 Layout.indented.pad ++ (utf8 (chars .indented 1 (.string s)) ++ rest)) =
    .ok (.text s, rest) := by
  have hskip :
      readText "a string"
        (utf8 Layout.indented.pad ++ (utf8 (chars .indented 1 (.string s)) ++ rest)) =
      .ok (s, rest) := readText_quote "a string" s rest
  rw [readTextMember, hskip]
  rfl

theorem readStampMember_quote (s : String) (rest : Bytes) :
    readStampMember (utf8 Layout.indented.pad ++ (utf8 (chars .indented 1 (.string s)) ++ rest)) =
      match Stamp.parse s with
      | .ok stamp => .ok (.stamp stamp, rest)
      | .error e => failHere e.message rest := by
  have hskip : readText "an RFC 3339 formatted date and time string"
      (utf8 Layout.indented.pad ++ (utf8 (chars .indented 1 (.string s)) ++ rest)) =
        .ok (s, rest) :=
    readText_quote "an RFC 3339 formatted date and time string" s rest
  rw [readStampMember, hskip]
  rfl

/-- The members of an entry are found one after another. -/
theorem read_pretty (e : Entry) : ∃ rest, Entry.read e.toJson.pretty.toUTF8.toList =
    match Stamp.parse e.createdAt.text with
    | .ok stamp => .ok ({ e with createdAt := stamp }, [])
    | .error reason => failHere reason.message rest := by
  have hskip : ∀ bytes, skipSpace (123 :: bytes) = 123 :: bytes := fun _ => rfl
  have hnone : (fields.map fun _ => (none : Option Member)) = [none, none, none, none] := rfl
  have hend : ∀ found fuel, readKeyed fields false found (fuel + 1)
      (memberBytes (utf8 (Layout.indented.gap 1)) (utf8 Layout.indented.pad) (chars .indented 1)
        false [] ++ (utf8 (Layout.indented.gap 0) ++ [125])) = .ok (found, []) :=
    fun _ _ => by rw [readKeyed]; rfl
  obtain ⟨fuel, hfuel⟩ : ∃ fuel, e.toJson.pretty.toUTF8.toList.length = fuel + 5 := by
    rw [toJson, pretty, byteList_object]
    exact ⟨_, rfl⟩
  rw [toJson, pretty, byteList_object] at hfuel ⊢
  rw [List.length_cons] at hfuel
  rw [Entry.read, readRecord, hskip]
  simp only [hfuel, hnone]
  rw [readKeyed_cons (i := 0) isBlank_indented.gap rfl rfl]
  simp only [readTextMember_quote, bind, Except.bind, List.set]
  rw [readKeyed_cons (i := 1) isBlank_indented.gap rfl rfl]
  simp only [readTextMember_quote, bind, Except.bind, List.set]
  rw [readKeyed_cons (i := 2) isBlank_indented.gap rfl rfl]
  simp only [readStampMember_quote]
  cases Stamp.parse e.createdAt.text with
  | error reason => exact ⟨_, rfl⟩
  | ok stamp =>
    simp only [bind, Except.bind, List.set]
    rw [readKeyed_cons (i := 3) isBlank_indented.gap rfl rfl]
    simp only [readTextMember_quote, bind, Except.bind, List.set, hend]
    exact ⟨[], rfl⟩

/-- An entry is read from its text as it was written, unless its time does not read as one. -/
theorem parse_pretty {e e' : Entry} (h : Entry.parse e.toJson.pretty.toUTF8.toList = .ok e') :
    ∃ stamp, Stamp.parse e.createdAt.text = .ok stamp ∧ e' = { e with createdAt := stamp } := by
  obtain ⟨rest, hread⟩ := e.read_pretty
  rw [Entry.parse, document, hread] at h
  cases hs : Stamp.parse e.createdAt.text <;> rw [hs] at h <;> cases h
  exact ⟨_, rfl, rfl⟩

end Entry

end Foundry
