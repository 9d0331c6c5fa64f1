import Foundry.Placeholder
import Mathlib.Data.List.Infix

/-!
# Outlines

A text has one outline. A literal ends where the first pair of opening braces starts, a
body where the first pair of closing braces after it starts, and what comes last holds
no placeholder that is both opened and closed. The outline is found without a look at
any value, so rendering replaces what stands in it once and leaves the rest alone.
-/

namespace Foundry

open List Option

namespace Text

variable {d c : Char} {cs before after x y w : List Char}

/-- A text that can stand before the first pair of `d`: it holds no pair, and it does not end in
a `d` that could be taken for the first half of one. -/
structure Unpaired (d : Char) (cs : List Char) : Prop where
  inside : ¬ [d, d] <:+: cs
  last : cs.getLast? ≠ some d

theorem pair_isPrefix_cons : [d, d] <+: c :: cs ↔ c = d ∧ cs.head? = some d := by
  cases cs with
  | nil => simp
  | cons b rest => simp [cons_prefix_cons, eq_comm]

@[simp] theorem unpaired_nil : Unpaired d [] := ⟨by simp, by simp⟩

theorem unpaired_cons :
    Unpaired d (c :: cs) ↔ (c = d → cs ≠ [] ∧ cs.head? ≠ some d) ∧ Unpaired d cs := by
  constructor
  · rintro ⟨hin, hlast⟩
    rw [infix_cons_iff, pair_isPrefix_cons, not_or] at hin
    cases cs with
    | nil => exact ⟨fun hc => absurd (congrArg some hc) hlast, unpaired_nil⟩
    | cons b rest =>
      exact ⟨fun hc => ⟨cons_ne_nil b rest, fun hb => hin.1 ⟨hc, hb⟩⟩, hin.2,
        by rwa [List.getLast?_cons_cons] at hlast⟩
  · rintro ⟨hc, hin, hlast⟩
    refine ⟨?_, ?_⟩
    · rw [infix_cons_iff, pair_isPrefix_cons]
      rintro (⟨rfl, hhead⟩ | hpair)
      · exact (hc rfl).2 hhead
      · exact hin hpair
    · cases cs with
      | nil => exact fun hd => (hc (some.inj hd)).1 rfl
      | cons b rest => rwa [List.getLast?_cons_cons]

theorem unpaired_of_notMem (h : d ∉ cs) : Unpaired d cs :=
  ⟨fun hin => h (hin.subset (by simp)), fun hlast => h (mem_of_getLast? hlast)⟩

theorem Unpaired.append (hx : Unpaired d x) (hy : Unpaired d y) : Unpaired d (x ++ y) := by
  induction x with
  | nil => exact hy
  | cons c x ih =>
    obtain ⟨hc, hx⟩ := unpaired_cons.mp hx
    refine unpaired_cons.mpr ⟨fun hd => ?_, ih hx⟩
    obtain ⟨hne, hhead⟩ := hc hd
    obtain ⟨b, rest, rfl⟩ := exists_cons_of_ne_nil hne
    exact ⟨cons_ne_nil b _, hhead⟩

/-- Such a text hides no pair that comes after it, and makes none with it. -/
theorem Unpaired.isInfix_append_iff (hx : Unpaired d x) :
    d :: d :: w <:+: x ++ y ↔ d :: d :: w <:+: y := by
  induction x with
  | nil => rfl
  | cons c x ih =>
    obtain ⟨hc, hx⟩ := unpaired_cons.mp hx
    rw [cons_append, infix_cons_iff, ih hx, or_iff_right]
    intro hprefix
    have hpair : [d, d] <+: c :: (x ++ y) := (prefix_append [d, d] w).trans hprefix
    obtain ⟨hd, hhead⟩ := pair_isPrefix_cons.mp hpair
    obtain ⟨hne, hnot⟩ := hc hd
    obtain ⟨b, rest, rfl⟩ := exists_cons_of_ne_nil hne
    exact hnot hhead

/-! ## Breaking at a pair -/

theorem breakPair_append (hx : Unpaired d x) (y : List Char) :
    breakPair d (x ++ y) = (breakPair d y).map fun r => (x ++ r.1, r.2) := by
  induction x with
  | nil => simp
  | cons c x ih =>
    obtain ⟨hc, hx⟩ := unpaired_cons.mp hx
    have hstep : breakPair d (c :: (x ++ y)) =
        (breakPair d (x ++ y)).map fun r => (c :: r.1, r.2) := by
      cases hxy : x ++ y with
      | nil => rfl
      | cons b rest =>
        have hno : ¬ (c = d ∧ b = d) := by
          rintro ⟨hcd, rfl⟩
          obtain ⟨hne, hhead⟩ := hc hcd
          obtain ⟨b', rest', rfl⟩ := exists_cons_of_ne_nil hne
          cases hxy
          exact hhead rfl
        rw [breakPair, if_neg hno]
    rw [cons_append, hstep, ih hx]
    simp [Option.map_map, Function.comp_def]

theorem breakPair_at (hx : Unpaired d x) (after : List Char) :
    breakPair d (x ++ d :: d :: after) = some (x, after) := by
  rw [breakPair_append hx]
  simp [breakPair]

theorem unpaired_of_breakPair (h : breakPair d cs = some (before, after)) : Unpaired d before := by
  fun_induction breakPair d cs generalizing before after with
  | case1 a b rest hd =>
    cases h
    exact unpaired_nil
  | case2 a b rest hd ih =>
    obtain ⟨⟨before', after'⟩, hr, hra⟩ := map_eq_some_iff.mp h
    cases hra
    refine unpaired_cons.mpr ⟨?_, ih hr⟩
    rintro rfl
    -- were the rest empty or started by `a`, then `b` would be `a` and the pair would be here
    have heq := breakPair_eq_append hr
    cases before' with
    | nil => exact absurd ⟨rfl, (List.cons.inj heq).1⟩ hd
    | cons e before' =>
      refine ⟨cons_ne_nil e before', fun hhead => hd ⟨rfl, ?_⟩⟩
      rw [(List.cons.inj heq).1]
      exact some.inj hhead
  | case3 => cases h

theorem breakPair_eq_none_iff : breakPair d cs = none ↔ ¬ [d, d] <:+: cs := by
  fun_induction breakPair d cs with
  | case1 a b rest hd =>
    obtain ⟨rfl, rfl⟩ := hd
    simpa using (prefix_append [b, b] rest).isInfix
  | case2 a b rest hd ih =>
    have hno : ¬ [d, d] <+: a :: b :: rest := by
      rw [pair_isPrefix_cons]
      simpa using hd
    rw [map_eq_none_iff, ih, infix_cons_iff (a := a), or_iff_right hno]
  | case3 cs hshort =>
    refine iff_of_true rfl ?_
    rcases cs with _ | ⟨a, _ | ⟨b, rest⟩⟩
    · simp
    · simp [infix_cons_iff]
    · exact absurd rfl (hshort a b rest)

end Text

namespace Outline

open Text

variable {literal body rest cs before after : List Char} {o : Outline}
  {value : List Char → Option (List Char)}

/-! ## Texts by their first placeholder -/

/-- No placeholder is opened and closed in the text: nothing is opened, or nothing is closed after
the first opening. -/
def HasNoHole (cs : List Char) : Prop :=
  ¬ ['{', '{'] <:+: cs ∨ ∃ before after, Unpaired '{' before ∧ cs = before ++ '{' :: '{' :: after ∧
    ¬ ['}', '}'] <:+: after

theorem ofChars_of_hasNoHole (h : HasNoHole cs) : ofChars cs = ⟨[], cs⟩ := by
  rw [ofChars]
  split
  · rfl
  rename_i literal rest hopened
  rcases h with hno | ⟨before, after, hbefore, rfl, hno⟩
  · rw [breakPair_eq_none_iff.mpr hno] at hopened
    cases hopened
  rw [breakPair_at hbefore] at hopened
  cases hopened
  split
  · rfl
  rename_i hclosed
  rw [breakPair_eq_none_iff.mpr hno] at hclosed
  cases hclosed

theorem ofChars_hole (hliteral : Unpaired '{' literal) (hbody : Unpaired '}' body)
    (rest : List Char) : ofChars (literal ++ raw body ++ rest) =
    ⟨(literal, body) :: (ofChars rest).holes, (ofChars rest).tail⟩ := by
  have hcs : literal ++ raw body ++ rest =
      literal ++ '{' :: '{' :: (body ++ '}' :: '}' :: rest) := by simp [raw]
  rw [hcs, ofChars]
  split
  · rename_i hopened
    rw [breakPair_at hliteral] at hopened
    cases hopened
  · rename_i literal' rest' hopened
    rw [breakPair_at hliteral] at hopened
    cases hopened
    split
    · rename_i hclosed
      rw [breakPair_at hbody] at hclosed
      cases hclosed
    · rename_i hclosed
      rw [breakPair_at hbody] at hclosed
      cases hclosed
      rfl

/-- Every text has no placeholder, or a first one with a text after it. -/
@[elab_as_elim] theorem text_induction {P : List Char → Prop} (noHole : ∀ cs, HasNoHole cs → P cs)
    (hole : ∀ literal body rest, Unpaired '{' literal → Unpaired '}' body → P rest →
    P (literal ++ raw body ++ rest)) (cs : List Char) : P cs := by
  fun_induction ofChars cs with
  | case1 cs hopened => exact noHole cs (.inl (breakPair_eq_none_iff.mp hopened))
  | case2 cs literal rest hopened hclosed =>
    exact noHole cs (.inr ⟨literal, rest, unpaired_of_breakPair hopened,
      breakPair_eq_append hopened, breakPair_eq_none_iff.mp hclosed⟩)
  | case3 cs literal rest hopened body rest' hclosed _ ih =>
    have hcs : cs = literal ++ raw body ++ rest' := by
      rw [breakPair_eq_append hopened, breakPair_eq_append hclosed]
      simp [raw]
    rw [hcs]
    exact hole literal body rest' (unpaired_of_breakPair hopened)
      (unpaired_of_breakPair hclosed) ih

/-! ## The outline of a text -/

/-- The outline cuts the text at its placeholders: the pieces give back the text, literals stop at
the first opening and bodies at the first closing, and no placeholder is left in the tail. -/
structure Cuts (o : Outline) (cs : List Char) : Prop where
  whole : o.holes.flatMap (fun h => h.1 ++ raw h.2) ++ o.tail = cs
  literals : ∀ h ∈ o.holes, Unpaired '{' h.1
  bodies : ∀ h ∈ o.holes, Unpaired '}' h.2
  tail : HasNoHole o.tail

theorem cuts_ofChars (cs : List Char) : (ofChars cs).Cuts cs := by
  induction cs using text_induction with
  | noHole cs h =>
    rw [ofChars_of_hasNoHole h]
    exact ⟨rfl, by simp, by simp, h⟩
  | hole literal body rest hliteral hbody ih =>
    rw [ofChars_hole hliteral hbody]
    refine ⟨?_, forall_mem_cons.mpr ⟨hliteral, ih.literals⟩,
      forall_mem_cons.mpr ⟨hbody, ih.bodies⟩, ih.tail⟩
    rw [flatMap_cons, append_assoc, ih.whole]

/-- A text has no other outline. -/
theorem Cuts.eq_ofChars (h : o.Cuts cs) : o = ofChars cs := by
  obtain ⟨holes, tail⟩ := o
  induction holes generalizing cs with
  | nil =>
    obtain rfl : tail = cs := h.whole
    exact (ofChars_of_hasNoHole h.tail).symm
  | cons hole holes ih =>
    obtain ⟨hliteral, hliterals⟩ := forall_mem_cons.mp h.literals
    obtain ⟨hbody, hbodies⟩ := forall_mem_cons.mp h.bodies
    have hwhole := h.whole
    rw [flatMap_cons, append_assoc] at hwhole
    rw [← hwhole, ofChars_hole hliteral hbody, ← ih ⟨rfl, hliterals, hbodies, h.tail⟩]

theorem fill_of_forall_none (h : ∀ hole ∈ o.holes, value hole.2 = none) (hcuts : o.Cuts cs) :
    o.fill value = cs := by
  rw [← hcuts.whole, fill]
  congr 1
  exact flatMap_congr fun hole hmem => by rw [h hole hmem, getD_none]

end Outline

namespace Bindings

open Outline

variable {assignments : List (String × String)} {body : List Char}

/-- What a placeholder with this body becomes: the value that the name in it was last given, or
itself if the name was given none. -/
inductive Substituted (assignments : List (String × String)) (body : List Char) : List Char → Prop
  | value {before after : List (String × String)} {value : String}
      (assigned : assignments =
        before ++ (String.ofList (Text.trimChars body), value) :: after)
      (last : ∀ a ∈ after, a.1 ≠ String.ofList (Text.trimChars body)) :
      Substituted assignments body value.toList
  | kept (unknown : ∀ a ∈ assignments, a.1 ≠ String.ofList (Text.trimChars body)) :
      Substituted assignments body (raw body)

theorem latest_ofList (assignments : List (String × String)) :
    (ofList assignments).latest = assignments.reverse := by
  have hfold : ∀ b : Bindings, (assignments.foldl (fun b p => b.set p.1 p.2) b).latest =
      assignments.reverse ++ b.latest := by
    induction assignments with
    | nil => simp
    | cons a rest ih =>
      intro b
      rw [foldl_cons, ih]
      simp [set]
  exact (hfold empty).trans (append_nil _)

theorem get?_ofList_eq_none_iff {name : String} :
    (ofList assignments).get? name = none ↔ ∀ a ∈ assignments, a.1 ≠ name := by
  simp [get?, latest_ofList]

theorem substituted_valueOf (assignments : List (String × String)) (body : List Char) :
    Substituted assignments body (((ofList assignments).valueOf body).getD (raw body)) := by
  cases hget : (ofList assignments).get? (String.ofList (Text.trimChars body)) with
  | none =>
    rw [valueOf, hget]
    exact .kept (get?_ofList_eq_none_iff.mp hget)
  | some value =>
    rw [valueOf, hget]
    rw [get?, latest_ofList, map_eq_some_iff] at hget
    obtain ⟨⟨name, _⟩, hfind, rfl⟩ := hget
    obtain ⟨hname, later, earlier, heq, hlater⟩ := List.find?_eq_some_iff_append.mp hfind
    obtain rfl : name = _ := by simpa using hname
    refine @Substituted.value _ _ earlier.reverse later.reverse _ ?_ ?_
    · rw [← reverse_reverse assignments, heq]
      simp
    intro a ha
    simpa using hlater a (mem_reverse.mp ha)

/-- A text is cut in one way into literals and placeholders, whatever the variables are, and
rendering puts its value for each placeholder with a known name and leaves all else as it is. -/
theorem render_fills_the_outline (template : String) :
    ∃ o : Outline, o.Cuts template.toList ∧ (∀ o' : Outline, o'.Cuts template.toList → o' = o) ∧
      ∀ assignments : List (String × String),
        (∃ text : List Char → List Char, (∀ body, Substituted assignments body (text body)) ∧
          ((ofList assignments).render template).toList =
            o.holes.flatMap (fun h => h.1 ++ text h.2) ++ o.tail) ∧
        ((∀ h ∈ o.holes, ∀ a ∈ assignments, a.1 ≠ String.ofList (Text.trimChars h.2)) →
          (ofList assignments).render template = template) := by
  have hcuts := cuts_ofChars template.toList
  refine ⟨ofChars template.toList, hcuts, fun o' h => h.eq_ofChars, fun assignments => ⟨?_, ?_⟩⟩
  · refine ⟨fun body => ((ofList assignments).valueOf body).getD (raw body),
      substituted_valueOf assignments, ?_⟩
    rw [render, String.toList_ofList, fill]
  · intro hunknown
    have hnone : ∀ h ∈ (ofChars template.toList).holes, (ofList assignments).valueOf h.2 = none :=
      fun h hmem => by rw [valueOf, get?_ofList_eq_none_iff.mpr (hunknown h hmem), Option.map_none]
    rw [render, fill_of_forall_none hnone hcuts, String.ofList_toList]

end Bindings

end Foundry
