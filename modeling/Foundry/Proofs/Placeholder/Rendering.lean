import Foundry.Proofs.Placeholder.Outlines
import Foundry.Proofs.Text.Blank

/-!
# Rendered texts

A value without opening braces opens nothing, and neither does it together with the
literals beside it. So the placeholders of a rendered text are those that were kept, and
rendering again keeps them again. A placeholder with a known name is still there
afterwards only where an earlier opening has taken it into a body of its own.
-/

namespace Foundry

open List

namespace Text

variable {d : Char} {w y z : List Char}

/-- A word that is closed by a pair can be found at the first pair, where it ends the text before,
or behind that pair. -/
theorem Unpaired.isInfix_pair_iff (hz : Unpaired d z) (hne : w ≠ []) (hw : d ∉ w) :
    w ++ [d, d] <:+: z ++ d :: d :: y ↔ w <:+ z ∨ w ++ [d, d] <:+: y := by
  obtain ⟨a, w, rfl⟩ := exists_cons_of_ne_nil hne
  have ha : a ≠ d := fun h => hw (h ▸ mem_cons_self)
  induction z with
  | nil =>
    have hno : ∀ rest, ¬ a :: w ++ [d, d] <+: d :: rest := by
      intro rest hprefix
      rw [cons_append, cons_prefix_cons] at hprefix
      exact ha hprefix.1
    rw [nil_append, infix_cons_iff, infix_cons_iff, or_iff_right (hno _),
      or_iff_right (hno _)]
    simp
  | cons c z ih =>
    have hlater : a :: w ++ [d, d] <:+: z ++ d :: d :: y ↔
        a :: w <:+ z ∨ a :: w ++ [d, d] <:+: y := ih (unpaired_cons.mp hz).2
    rw [cons_append (a := c), infix_cons_iff, hlater, suffix_cons_iff, ← or_assoc]
    refine or_congr_left (or_congr_left ⟨?_, ?_⟩)
    · -- both texts stand before the first pair
      rintro ⟨rest, hrest⟩
      have hsame : breakPair d (a :: w ++ d :: d :: rest) =
          breakPair d (c :: z ++ d :: d :: y) := by
        rw [cons_append (a := c), ← hrest]
        simp
      rw [breakPair_at (unpaired_of_notMem hw), breakPair_at hz] at hsame
      exact congrArg Prod.fst (Option.some.inj hsame)
    · intro heq
      rw [heq]
      exact ⟨y, by simp⟩

theorem trimChars_of_forall {cs : List Char} (h : ∀ c ∈ cs, isBlank c = false) :
    trimChars cs = cs := by
  have hstart : ∀ ds : List Char, (∀ c ∈ ds, isBlank c = false) → ds.dropWhile isBlank = ds :=
    fun ds hds => dropWhile_of_head fun c hc => hds c (mem_of_head? hc)
  rw [trimChars, trimStartChars, hstart cs h, trimEndChars, dropWhileEnd,
    hstart cs.reverse (by simpa using h), reverse_reverse]

end Text

namespace Outline

open Text

variable {literal body rest cs x k : List Char} {value : List Char → Option (List Char)}

theorem HasNoHole.append (hx : Unpaired '{' x) (h : HasNoHole cs) : HasNoHole (x ++ cs) := by
  rcases h with hno | ⟨before, after, hbefore, rfl, hno⟩
  · exact .inl fun hpair => hno (hx.isInfix_append_iff.mp hpair)
  · exact .inr ⟨x ++ before, after, hx.append hbefore, by simp, hno⟩

theorem fill_of_hasNoHole (h : HasNoHole cs) : (ofChars cs).fill value = cs := by
  rw [ofChars_of_hasNoHole h]
  rfl

theorem fill_hole (hliteral : Unpaired '{' literal) (hbody : Unpaired '}' body) (rest : List Char) :
    (ofChars (literal ++ raw body ++ rest)).fill value =
    literal ++ (value body).getD (raw body) ++ (ofChars rest).fill value := by
  rw [ofChars_hole hliteral hbody]
  simp [fill]

/-- What opens nothing passes through. -/
theorem fill_append (hx : Unpaired '{' x) (cs : List Char) :
    (ofChars (x ++ cs)).fill value = x ++ (ofChars cs).fill value := by
  induction cs using text_induction with
  | noHole cs h => rw [fill_of_hasNoHole h, fill_of_hasNoHole (h.append hx)]
  | hole literal body rest hliteral hbody _ =>
    rw [← append_assoc, ← append_assoc, fill_hole (hx.append hliteral) hbody,
      fill_hole hliteral hbody]
    simp

theorem fill_fill (hvalue : ∀ body v, value body = some v → '{' ∉ v) (cs : List Char) :
    (ofChars ((ofChars cs).fill value)).fill value = (ofChars cs).fill value := by
  induction cs using text_induction with
  | noHole cs h => rw [fill_of_hasNoHole h, fill_of_hasNoHole h]
  | hole literal body rest hliteral hbody ih =>
    rw [fill_hole hliteral hbody]
    cases hv : value body with
    | none => rw [Option.getD_none, fill_hole hliteral hbody, hv, ih, Option.getD_none]
    | some v =>
      have hseam : Unpaired '{' (literal ++ v) :=
        hliteral.append (unpaired_of_notMem (hvalue body v hv))
      rw [Option.getD_some, fill_append hseam, ih]

/-! ## Placeholders that are left -/

theorem HasNoHole.not_raw_isInfix (h : HasNoHole cs) : ¬ raw k <:+: cs := by
  intro hraw
  have hopen : ['{', '{'] <:+: cs := (prefix_append _ _).isInfix.trans hraw
  rcases h with hno | ⟨before, after, hbefore, rfl, hno⟩
  · exact hno hopen
  have hclose : ['}', '}'] <:+: raw k := ⟨'{' :: '{' :: k, [], by simp [raw]⟩
  have hbraces : Unpaired '}' ['{', '{'] := unpaired_of_notMem (by decide)
  have hafter : raw k <:+: ['{', '{'] ++ after := hbefore.isInfix_append_iff.mp hraw
  exact hno (hbraces.isInfix_append_iff.mp (hclose.trans hafter))

/-- The placeholder of a name is left exactly where a kept one ends in it. -/
theorem raw_isInfix_fill_iff (hvalue : ∀ body v, value body = some v → '{' ∉ v) (hk : '}' ∉ k)
    (cs : List Char) : raw k <:+: (ofChars cs).fill value ↔
    ∃ h ∈ (ofChars cs).holes, value h.2 = none ∧ '{' :: '{' :: k <:+ '{' :: '{' :: h.2 := by
  induction cs using text_induction with
  | noHole cs h =>
    rw [fill_of_hasNoHole h, ofChars_of_hasNoHole h]
    simpa using h.not_raw_isInfix
  | hole literal body rest hliteral hbody ih =>
    rw [fill_hole hliteral hbody, ofChars_hole hliteral hbody, exists_mem_cons_iff, ← ih]
    cases hv : value body with
    | none =>
      have hopened : Unpaired '}' ('{' :: '{' :: body) := by
        simpa [unpaired_cons] using hbody
      have hword : '}' ∉ '{' :: '{' :: k := by simpa using hk
      have hraw : raw body ++ (ofChars rest).fill value =
          ('{' :: '{' :: body) ++ '}' :: '}' :: (ofChars rest).fill value := by simp [raw]
      rw [Option.getD_none, append_assoc, raw, hliteral.isInfix_append_iff, hraw]
      simpa using hopened.isInfix_pair_iff (cons_ne_nil _ _) hword
    | some v =>
      have hseam : Unpaired '{' (literal ++ v) :=
        hliteral.append (unpaired_of_notMem (hvalue body v hv))
      rw [Option.getD_some, raw, hseam.isInfix_append_iff]
      simp

end Outline

namespace Bindings

open Outline

variable {b : Bindings} {k : String}

theorem notMem_of_valueOf {c : Char}
    (hvalues : ∀ name value, b.get? name = some value → c ∉ value.toList) (body v : List Char)
    (h : b.valueOf body = some v) : c ∉ v := by
  obtain ⟨value, hget, rfl⟩ := Option.map_eq_some_iff.mp h
  exact hvalues _ value hget

theorem valueOf_toList (hk : ∀ c ∈ k.toList, Text.isBlank c = false) :
    b.valueOf k.toList = (b.get? k).map (·.toList) := by
  rw [valueOf, Text.trimChars_of_forall hk, String.ofList_toList]

theorem forall_get?_ofList {assignments : List (String × String)} {P : String → Prop}
    (h : ∀ a ∈ assignments, P a.2) (name value : String)
    (hget : (ofList assignments).get? name = some value) : P value := by
  obtain ⟨a, hfind, rfl⟩ := Option.map_eq_some_iff.mp hget
  have hmem := mem_of_find?_eq_some hfind
  rw [latest_ofList, mem_reverse] at hmem
  exact h a hmem

/-- Rendering twice is rendering once, if no value holds an opening brace. -/
theorem render_idempotent (hvalues : ∀ name value, b.get? name = some value → '{' ∉ value.toList)
    (template : String) : b.render (b.render template) = b.render template := by
  rw [render, render, String.toList_ofList, fill_fill (notMem_of_valueOf hvalues)]

/-- The value of one variable is empty and that of the other ends in a closing brace; the text has
overlapping braces, a name that is not known and an opening that is not closed. -/
theorem render_idempotent_thorny :
    let b := ofList [("a", ""), ("b", "\x7d")]
    let template := String.ofList
      (raw ['{', 'a'] ++ raw [' ', 'a', ' '] ++ '}' :: raw ['b'] ++ raw ['c'] ++ ['{', '{', 'a'])
    b.render (b.render template) = b.render template :=
  render_idempotent (forall_get?_ofList (by simp)) _

/-- The placeholder of a known name is left in a rendered text exactly where an earlier opening has
taken it in: where it ends a placeholder of the template that starts before it and that has
itself no value. -/
theorem known_placeholder_left_iff
    (hvalues : ∀ name value, b.get? name = some value → '{' ∉ value.toList)
    (hknown : (b.get? k).isSome) (hclosing : '}' ∉ k.toList)
    (hblank : ∀ c ∈ k.toList, Text.isBlank c = false) (template : String) :
    raw k.toList <:+: (b.render template).toList ↔
      ∃ h ∈ (ofChars template.toList).holes, b.valueOf h.2 = none ∧
        '{' :: '{' :: k.toList <:+ '{' :: h.2 := by
  rw [render, String.toList_ofList, raw_isInfix_fill_iff (notMem_of_valueOf hvalues) hclosing]
  refine exists_congr fun h => and_congr_right fun _ => and_congr_right fun hnone => ?_
  rw [List.suffix_cons_iff, or_iff_right]
  -- a body that is the name itself has a value
  intro hsame
  have hbody : h.2 = k.toList := by simpa using hsame.symm
  rw [hbody, valueOf_toList hblank, Option.map_eq_none_iff] at hnone
  simp [hnone] at hknown

/-- One placeholder is replaced, the other is taken in by the opening before it. -/
theorem known_placeholder_left_iff_swallowed :
    let b := ofList [("a", "x")]
    let template := String.ofList (raw [' ', 'a', ' '] ++ raw [' ', '{', '{', 'a'])
    raw "a".toList <:+: (b.render template).toList ↔
      ∃ h ∈ (ofChars template.toList).holes, b.valueOf h.2 = none ∧
        '{' :: '{' :: "a".toList <:+ '{' :: h.2 :=
  known_placeholder_left_iff (forall_get?_ofList (by simp)) rfl (by simp)
    (by simp [Text.isBlank, Text.blankRanges]) _

/-- The first opening is closed only behind the second one. -/
theorem swallowed_placeholder_left : ¬ ∀ (b : Bindings) (k template : String),
    (∀ name value, b.get? name = some value → '{' ∉ value.toList ∧ '}' ∉ value.toList) →
    (b.get? k).isSome → k ≠ "" →
    (∀ c ∈ k.toList, c ≠ '{' ∧ c ≠ '}' ∧ Text.isBlank c = false) →
    ¬ raw k.toList <:+: (b.render template).toList := by
  intro hall
  refine hall (ofList [("a", "x")]) "a"
    (String.ofList (['('] ++ raw [')', ' ', '{', '{', 'a'] ++ []))
    (forall_get?_ofList (by simp)) rfl (by decide) (by simp [Text.isBlank, Text.blankRanges]) ?_
  have hliteral : Text.Unpaired '{' ['('] := by simp [Text.unpaired_cons]
  have hbody : Text.Unpaired '}' [')', ' ', '{', '{', 'a'] := by simp [Text.unpaired_cons]
  have hkept : (ofList [("a", "x")]).valueOf [')', ' ', '{', '{', 'a'] = none := by decide
  have hend : HasNoHole [] := Or.inl (by simp)
  simp only [render, String.toList_ofList]
  rw [fill_hole hliteral hbody, hkept, fill_of_hasNoHole hend]
  exact ⟨['(', '{', '{', ')', ' '], [], by simp [raw]⟩

end Bindings

end Foundry
