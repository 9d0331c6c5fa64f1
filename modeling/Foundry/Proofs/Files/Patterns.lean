import Foundry.Proofs.Files.Directories
import Mathlib.Data.List.Forall2

/-!
# Escaped patterns

In an escaped text every character stands for itself. So what matches an escaped directory, an
escaped start of a name and a `*` is in that directory and has a name that starts so. Whatever a
sweep removes has such a name.
-/

namespace Foundry

open List Path

namespace Glob

variable {cs name : List Char} {ts : List Token} {dir stem path : String} {p : Pattern}

/-! ## Reading -/

/-- How a character is escaped. -/
def quoted (c : Char) : List Char :=
  if c = '?' ∨ c = '*' ∨ c = '[' ∨ c = ']' then ['[', c, ']'] else [c]

/-- The token of an escaped character. -/
def standing (c : Char) : Token :=
  if c = '?' ∨ c = '*' ∨ c = '[' ∨ c = ']' then .within [.single c] else .char c

theorem toList_escape (text : String) : (escape text).toList = text.toList.flatMap quoted :=
  String.toList_ofList

/-- Wherever a text stands, its tokens are these. -/
def IsReadAs (cs : List Char) (ts : List Token) : Prop :=
  ∀ fuel edge position, cs.length < fuel → readTokens fuel edge position cs = .ok ts

theorem IsReadAs.tokens (h : IsReadAs cs ts) : tokens cs = .ok ts := h _ _ _ (Nat.lt_succ_self _)

theorem isReadAs_nil : IsReadAs [] [] := fun fuel _ _ hfuel => by cases fuel <;> trivial

theorem isReadAs_star : IsReadAs ['*'] [.anySequence] := by
  rintro (_ | _ | fuel) _ _ hfuel
  · cases hfuel
  · cases Nat.lt_irrefl 1 hfuel
  · rfl

theorem IsReadAs.cons (h : IsReadAs cs ts) (c : Char) :
    IsReadAs (quoted c ++ cs) (standing c :: ts) := by
  rintro (_ | fuel) edge position hfuel
  · cases hfuel
  by_cases hc : c = '?' ∨ c = '*' ∨ c = '[' ∨ c = ']'
  · have hbracket : readBracket (c :: ']' :: cs) = some (.within [.single c], cs) := by
      rcases hc with rfl | rfl | rfl | rfl <;> simp [readBracket, readClass]
    simp only [quoted, standing, hc, if_true, cons_append, nil_append, length_cons] at hfuel ⊢
    simp only [readTokens, hbracket, h fuel _ _ (by omega)]
    rfl
  · simp only [quoted, standing, hc, if_false, cons_append, nil_append, length_cons] at hfuel ⊢
    rw [readTokens, h fuel _ _ (by omega)]
    · rfl
    all_goals simp_all

theorem IsReadAs.append (h : IsReadAs cs ts) (x : List Char) :
    IsReadAs (x.flatMap quoted ++ cs) (x.map standing ++ ts) := by
  induction x with
  | nil => exact h
  | cons c x ih => simpa using ih.cons c

theorem splitOn_quoted (cs : List Char) :
    (cs.flatMap quoted).splitOn '/' = (cs.splitOn '/').map (·.flatMap quoted) := by
  induction cs with
  | nil => rfl
  | cons c cs ih =>
    obtain ⟨first, rest, hsplit⟩ := exists_cons_of_ne_nil (splitOn_ne_nil '/' cs)
    by_cases hc : c = '?' ∨ c = '*' ∨ c = '[' ∨ c = ']'
    · have hslash : c ≠ '/' := by
        rintro rfl
        simp at hc
      simp_all [quoted, splitOn_cons_eq_if_modifyHead]
    · by_cases hslash : c = '/' <;> simp_all [quoted, splitOn_cons_eq_if_modifyHead]

/-- The pattern of an absolute directory and the start of a name. -/
def starred (dir stem : String) : Pattern :=
  ⟨true, ((dir.toList.drop 1).splitOn '/').map (·.map standing) ++
    [stem.toList.map standing ++ [.anySequence]], false⟩

theorem parse_starred (hdir : isAbsolute dir = true) (hstem : '/' ∉ stem.toList) :
    Pattern.parse (escape dir ++ "/" ++ escape stem ++ "*") = .ok (starred dir stem) := by
  obtain ⟨d, hd⟩ : ∃ d, dir.toList = '/' :: d := by simpa [isAbsolute, head?_eq_some_iff] using hdir
  generalize htext : escape dir ++ "/" ++ escape stem ++ "*" = text
  have hall : text.toList = ('/' :: (d ++ '/' :: stem.toList)).flatMap quoted ++ ['*'] := by
    simp [← htext, toList_escape, hd, quoted]
  have hchars : text.toList =
      '/' :: (d.flatMap quoted ++ '/' :: (stem.toList.flatMap quoted ++ ['*'])) := by
    simp [hall, quoted]
  have hslash : '/' ∉ stem.toList.flatMap quoted ++ ['*'] := by
    simp only [mem_append, mem_flatMap, quoted]
    grind
  have hparts :
      ((d.splitOn '/').map (·.flatMap quoted) ++ [stem.toList.flatMap quoted ++ ['*']]).mapM
        tokens =
      .ok (starred dir stem).components := by
    have hquoted (x : List Char) : tokens (x.flatMap quoted) = .ok (x.map standing) := by
      simpa using (isReadAs_nil.append x).tokens
    simp only [mapM_append, mapM_map, mapM_cons, mapM_nil, Function.comp_def, hquoted,
      (isReadAs_star.append _).tokens, starred, hd]
    exact congrArg (· >>= _) mapM_pure
  have hends : text.endsWith "/" = false := by simp [endsWith_slash, hall]
  have habs : isAbsolute text = true := by simp [isAbsolute, hchars]
  simp only [Pattern.parse, habs, hends, hchars, drop_one, tail_cons, if_true,
    splitOn_append_cons_self, splitOn_quoted, splitOn_eq_singleton hslash]
  rw [← hchars, hall, (isReadAs_star.append _).tokens]
  simp only [getLast?_concat, Option.some.injEq, append_eq_nil_iff, cons_ne_nil, and_false,
    if_false, List.isEmpty_iff, hparts]
  rfl

/-! ## Matching -/

/-- What stands between the slashes of a path matches the components of a pattern without `**` one
by one. -/
def Pattern.Matches (p : Pattern) (path : String) : Prop :=
  List.Forall₂ (fun ts cs => matchName ts cs = true) (if p.absolute then [] :: p.components
    else p.components) (path.toList.splitOn '/')

theorem matchName_standing :
    matchName (cs.map standing ++ ts) name = true ↔ ∃ rest, name = cs ++ rest ∧ matchName ts rest =
    true := by
  induction cs generalizing name with
  | nil => simp
  | cons c cs ih =>
    cases name with
    | nil =>
      rw [map_cons, cons_append, standing]
      split <;> simp [matchName]
    | cons a as =>
      have hstep : matchName ((c :: cs).map standing ++ ts) (a :: as) =
          (a == c && matchName (cs.map standing ++ ts) as) := by
        rw [map_cons, cons_append, standing]
        split <;> simp [matchName, Specifier.admits]
      rw [hstep, Bool.and_eq_true, ih]
      simp [and_assoc]

theorem matchName_star (name : List Char) : matchName [.anySequence] name = true := by
  rw [matchName]
  induction name with
  | nil => simp [matchName.matchRest, matchName]
  | cons c name ih => simp [matchName.matchRest, ih]

theorem matches_starred (hdir : isAbsolute dir = true) : (starred dir stem).Matches path ↔
    ∃ suffix, path.toList.splitOn '/' = dir.toList.splitOn '/' ++ [stem.toList ++ suffix] := by
  obtain ⟨d, hd⟩ : ∃ d, dir.toList = '/' :: d := by simpa [isAbsolute, head?_eq_some_iff] using hdir
  have hparts : [] :: (starred dir stem).components =
      (dir.toList.splitOn '/').map (·.map standing) ++
        [stem.toList.map standing ++ [.anySequence]] := by
    simp [starred, hd, splitOn_cons_eq_if_modifyHead]
  have hsame (x y : List Char) : matchName (x.map standing) y = true ↔ y = x := by
    have h : matchName (x.map standing ++ []) y = true ↔ _ := matchName_standing
    simpa [matchName] using h
  rw [Pattern.Matches, if_pos (show (starred dir stem).absolute = true from rfl), hparts]
  generalize path.toList.splitOn '/' = ys
  induction dir.toList.splitOn '/' generalizing ys with
  | nil =>
    simp only [map_nil, nil_append, forall₂_cons_left_iff, forall₂_nil_left_iff,
      matchName_standing, matchName_star, and_true]
    grind
  | cons x xs ih => simp [forall₂_cons_left_iff, hsame, ih, exists_and_left]

theorem starred_matches (hdir : isAbsolute dir = true) {suffix : String}
    (hslash : '/' ∉ stem.toList ++ suffix.toList) :
    (starred dir stem).Matches (dir ++ "/" ++ stem ++ suffix) := by
  have hpath : (dir ++ "/" ++ stem ++ suffix).toList = dir.toList ++
      '/' :: (stem.toList ++ suffix.toList) := by simp
  rw [matches_starred hdir, hpath, splitOn_append_cons_self, splitOn_eq_singleton hslash]
  exact ⟨_, rfl⟩

/-! ## Sweeping -/

/-- A lead whose name is still to be matched. -/
def Lead.IsOpen : Lead → Prop
  | .candidate c => c.component.isSome = true
  | .unreadable .. => True

/-- The last component of a pattern without `**`: no literal, and nothing for hidden names. -/
structure Pattern.EndsIn (p : Pattern) (ts : List Token) : Prop where
  last : p.components.getLast? = some ts
  literal : literal? ts = none
  visible : ts.head? ≠ some (.char '.')
  single : ∀ xs ∈ p.components, isRecursive xs = false

variable {fs : Files} {cwd : Place} {parts : List (List Token)}

theorem Pattern.EndsIn.isOpen_expand (h : p.EndsIn ts) (hlast : parts.getLast? = some ts)
    (isDir : Bool) (number : Nat) : ∀ l ∈ expand fs cwd p dir isDir number parts, l.IsOpen := by
  induction parts generalizing dir isDir number with
  | nil => cases hlast
  | cons x rest ih =>
    have hnext (hx : x ≠ ts) (path : String) :
        ∀ l ∈ if rest.isEmpty then [Lead.candidate ⟨path, fs.isDir cwd path, none⟩]
          else expand fs cwd p path (fs.isDir cwd path) (number + 1) rest, l.IsOpen := by
      cases rest with
      | nil => exact absurd (Option.some.inj hlast) hx
      | cons y rest => exact ih (by simpa using hlast) _ _
    intro l hl
    unfold expand at hl
    split at hl
    · rename_i hx
      refine hnext ?_ _ l (mem_ite_nil_left.mp hl).2
      rintro rfl
      cases h.literal.symm.trans hx
    · split at hl
      · cases hl
      split at hl
      · rw [mem_singleton.mp hl]
        trivial
      rcases mem_append.mp hl with hl | hl
      · obtain ⟨name, hname, hl⟩ := mem_flatMap.mp hl
        refine hnext ?_ _ l hl
        rintro rfl
        split at hname
        · exact h.visible rfl
        · cases hname
      · obtain ⟨name, _, rfl⟩ := mem_map.mp hl
        rfl

/-- What is found has a name that the last component matches. -/
theorem Pattern.EndsIn.visit (h : p.EndsIn ts) {c : Candidate} (hc : (Lead.candidate c).IsOpen) :
    (∀ l ∈ (visit fs cwd p c).2, l.IsOpen) ∧ ∀ path, (visit fs cwd p c).1 = some path →
    ∃ name, fileName? path = some name ∧ matchName ts name.toList = true := by
  obtain ⟨number, hnumber⟩ := Option.isSome_iff_exists.mp hc
  simp only [Glob.visit, hnumber]
  cases hget : p.components[number]? with
  | none => simp
  | some xs =>
    obtain ⟨hlt, -⟩ := List.getElem?_eq_some_iff.mp hget
    simp only [h.single xs (mem_of_getElem? hget), Bool.not_false, if_true, tryName, hget]
    cases hname : fileName? c.path with
    | none => simp
    | some name =>
      dsimp only
      split
      · simp
      rename_i hmatch
      split
      · rename_i hend
        refine ⟨by simp, fun path hpath => ⟨name, ?_⟩⟩
        split at hpath <;> cases hpath
        have hlast := h.last
        rw [getLast?_eq_getElem?, ← hend, Nat.add_sub_cancel, hget] at hlast
        cases hlast
        exact ⟨hname, by simpa using hmatch⟩
      · refine ⟨h.isOpen_expand ?_ _ _, by simp⟩
        rw [getLast?_drop, if_neg (by omega), h.last]

theorem endsIn_starred (dir : String) (hdot : stem.toList.head? ≠ some '.') :
    (starred dir stem).EndsIn (stem.toList.map standing ++ [.anySequence]) := by
  have hliteral (cs : List Char) : literal? (cs.map standing ++ [.anySequence]) = none := by
    induction cs with
    | nil => rfl
    | cons c cs ih =>
      rw [map_cons, standing]
      split <;> simp [literal?, ih]
  refine ⟨by simp [starred], hliteral _, ?_, ?_⟩
  · cases hstem : stem.toList <;> simp_all [standing]
    grind
  simp only [starred, mem_append, mem_map, mem_singleton, isRecursive, contains_eq_mem]
  rintro xs (⟨cs, -, rfl⟩ | rfl) <;> simp [standing] <;> grind

end Glob

namespace Files

open Glob

variable {fs : Files} {cwd : Place} {p : Pattern} {ts : List Token} {pattern : String} {P : Files →
  Prop}

/-- Whatever is kept when something with a matching name is removed is kept by a sweep. -/
theorem sweep_keeps (hparse : Pattern.parse pattern = .ok p) (h : p.EndsIn ts)
    (hkeep : ∀ fs path name, P fs →
    fileName? path = some name → matchName ts name.toList = true → P (fs.removeMatch cwd path).1)
    (hfs : P fs) : P (fs.sweep cwd pattern).1 := by
  rw [sweep, hparse]
  refine sweepFrom_induction (fun fs c hfs hc => ?_) _ hfs (h.isOpen_expand h.last _ _)
  refine ⟨(h.visit hc).1, fun path hpath => ?_⟩
  obtain ⟨name, hname, hmatch⟩ := (h.visit hc).2 path hpath
  exact hkeep fs path name hfs hname hmatch

end Files

end Foundry
