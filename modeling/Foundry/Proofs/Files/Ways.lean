import Foundry.Proofs.Files.Nodes

/-!
# Where paths lead

A path without `..` that meets no link leads to the place its names spell, whatever
else stands in the tree. The names of a joined path are those of both parts, so the
files in a directory are found right below the place of the directory, and a path
with a last name leads right below where its parent leads.
-/

namespace Foundry

open List Files Path

variable (cs : List Char)

namespace Path

variable {b : String}
variable {s a : String}

/-- A name that a directory can hold. -/
structure IsName (s : String) : Prop where
  ne_empty : s ≠ ""
  ne_dot : s ≠ "."
  ne_dots : s ≠ ".."
  no_slash : '/' ∉ s.toList

@[simp] theorem names_empty : names "" = [] := rfl

theorem names_append_slash (a b : String) : names (a ++ "/" ++ b) = names a ++ names b := by
  have h : (a ++ "/" ++ b).toList = a.toList ++ '/' :: b.toList := by simp
  simp [names, h, splitOn_append_cons_self]

theorem names_of_isName (h : IsName s) : names s = [s] := by
  simp [names, splitOn_eq_singleton h.no_slash, h.ne_empty]

/-- A text whose last character is a slash. -/
theorem eq_append_slash (h : s.toList.getLast? = some '/') : ∃ a, s = a ++ "/" := by
  obtain ⟨cs, hcs⟩ := List.getLast?_eq_some_iff.mp h
  refine ⟨String.ofList cs, String.toList_injective ?_⟩
  simp [hcs]

theorem names_join (hb : isAbsolute b = false) : names (join a b) = names a ++ names b := by
  unfold join
  by_cases ha : a.isEmpty = true
  · have : a = "" := by simpa using ha
    simp [this]
  simp only [hb, ha, Bool.or_self, Bool.false_eq_true, if_false]
  split
  · rename_i hlast
    obtain ⟨c, rfl⟩ := eq_append_slash hlast
    have hc : names (c ++ "/") = names c := by simpa using names_append_slash c ""
    rw [names_append_slash, hc]
  · exact names_append_slash a b

theorem isAbsolute_of_isName (h : IsName s) : isAbsolute s = false := by
  unfold isAbsolute
  cases hs : s.toList with
  | nil => rfl
  | cons c cs =>
    have hc : c ≠ '/' := by
      rintro rfl
      exact h.no_slash (by simp [hs])
    simpa using hc

theorem isAbsolute_append (ha : a ≠ "") (b : String) : isAbsolute (a ++ b) = isAbsolute a := by
  unfold isAbsolute
  cases hs : a.toList with
  | nil => exact absurd (by simpa using hs) ha
  | cons c cs => simp [hs]

theorem isAbsolute_join (ha : a ≠ "") (hb : isAbsolute b = false) :
    isAbsolute (join a b) = isAbsolute a := by
  unfold join
  have he : a.isEmpty = false := by simpa using ha
  simp only [hb, he, Bool.or_self, Bool.false_eq_true, if_false]
  split
  · exact isAbsolute_append ha b
  rw [String.append_assoc]
  exact isAbsolute_append ha _

end Path

namespace Files

variable {asDir : Bool} {at_ : Place} {names : List String}
variable {fs fs' : Files} {cwd : Place} {path : String} {p q : Place} {n : Node} {follow : Bool}
  {t : Target}

/-- The names that lead somewhere. -/
def steps (names : List String) : Place := names.filter (· ≠ ".")

/-- The place that a path without `..` spells. -/
def placeOf (cwd : Place) (path : String) : Place := startOf cwd path ++ steps (Path.names path)

theorem placeOf_join {a b : String} (hb : isAbsolute b = false) :
    placeOf cwd (Path.join a b) = placeOf cwd a ++ steps (Path.names b) := by
  have hstart : startOf cwd (Path.join a b) = startOf cwd a := by
    by_cases ha : a = ""
    · subst ha
      have he : isAbsolute "" = false := rfl
      simp [startOf, Path.join, hb, he]
    · simp [startOf, isAbsolute_join ha hb]
  simp [placeOf, hstart, names_join hb, steps]

/-- What is in a directory stands right below its place. -/
theorem placeOf_join_name {a b : String} (hb : Path.IsName b) :
    placeOf cwd (Path.join a b) = placeOf cwd a ++ [b] := by
  rw [placeOf_join (isAbsolute_of_isName hb), names_of_isName hb]
  simp [steps, hb.ne_dot]

/-- Neither at a place nor above it stands a link. -/
def Unlinked (fs : Files) (p : Place) : Prop :=
  ∀ q, q <+: p → ∀ target, fs.get? q ≠ some (.link target)

theorem Unlinked.of_append (h : fs.Unlinked (p ++ q)) : fs.Unlinked p :=
  fun r hr => h r (hr.trans (prefix_append p q))

@[simp] theorem steps_dot (l : List String) : steps ("." :: l) = steps l := by simp [steps]

theorem append_steps {name : String} (hname : name ≠ ".") (p : Place) (l : List String) :
    p ++ steps (name :: l) = p ++ [name] ++ steps l := by simp [steps, hname]

theorem Walks.place {links : Nat} (h : fs.Walks follow links asDir p names t) (hdots : ".." ∉ names)
    (hu : fs.Unlinked (p ++ steps names)) : t.place = p ++ steps names := by
  induction h with
  | here => simp [steps]
  | dot hname _ ih =>
    rw [hname, steps_dot] at hu ⊢
    exact ih (not_mem_of_not_mem_cons hdots) hu
  | up hname => exact absurd (by simp [hname]) hdots
  | last hname => simp [steps, hname.ne_dot]
  | down hname _ _ _ ih =>
    rw [append_steps hname.ne_dot] at hu ⊢
    exact ih (not_mem_of_not_mem_cons hdots) hu
  | link hname hlink =>
    rw [append_steps hname.ne_dot] at hu
    exact absurd hlink (hu.of_append _ (prefix_refl _) _)

/-- A path that meets no link leads to the place it spells. -/
theorem locate_place (hdots : ".." ∉ Path.names path) (hu : fs.Unlinked (placeOf cwd path))
    (h : fs.locate cwd follow path = .ok t) : t.place = placeOf cwd path :=
  (walks_of_locate h).place hdots hu

theorem find_place (hdots : ".." ∉ Path.names path) (hu : fs.Unlinked (placeOf cwd path))
    (h : fs.find cwd follow path = .ok (p, n)) : p = placeOf cwd path ∧ fs.get? p = some n := by
  obtain ⟨t, ht, rfl, hn⟩ := find_ok h
  exact ⟨locate_place hdots hu ht, hn⟩

end Files

/-! ## Last names -/

namespace Path

variable {name : String}

/-- The path that a list of characters spells from its end. -/
def ofReversed : String := String.ofList cs.reverse

theorem ofReversed_append (a b : List Char) :
    ofReversed (a ++ b) = ofReversed b ++ ofReversed a := by
  apply String.toList_injective
  simp [ofReversed]

theorem names_slash (a : String) : names (a ++ "/") = names a := by
  simpa using names_append_slash a ""

/-- What is trimmed off a path are names that lead nowhere. -/
theorem names_trimTail :
    ∃ dots, names (ofReversed cs) = names (ofReversed (trimTail cs)) ++ dots ∧ steps dots = [] := by
  induction cs using trimTail.induct with
  | case1 => exact ⟨[], by simp [trimTail], rfl⟩
  | case2 rest hne ih =>
    have hslash : ofReversed ('/' :: rest) = ofReversed rest ++ "/" := ofReversed_append ['/'] rest
    rw [trimTail, hslash, names_slash]
    · exact ih
    · exact hne
  | case3 rest ih =>
    have hslash : ofReversed ('/' :: rest) = ofReversed rest ++ "/" := ofReversed_append ['/'] rest
    have hdot : ofReversed ('.' :: '/' :: rest) = ofReversed rest ++ "/" ++ "." :=
      (ofReversed_append ['.'] ('/' :: rest)).trans (congrArg (· ++ ".") hslash)
    have hname : names "." = ["."] := by decide
    obtain ⟨dots, hnames, hdots⟩ := ih
    rw [hslash, names_slash] at hnames
    refine ⟨dots ++ ["."], ?_, ?_⟩
    · rw [trimTail, hdot, names_append_slash, hnames, hname, append_assoc]
    · simpa [steps] using hdots
  | case4 cs h1 h2 h3 =>
    refine ⟨[], ?_, rfl⟩
    rw [trimTail, append_nil]
    · exact h1
    · exact h2
    · exact h3

theorem steps_trimTail :
    steps (names (ofReversed (trimTail cs))) = steps (names (ofReversed cs)) := by
  obtain ⟨dots, hnames, hdots⟩ := names_trimTail cs
  rw [steps] at hdots
  rw [hnames, steps, steps, filter_append, hdots, append_nil]

theorem isAbsolute_ofReversed : isAbsolute (ofReversed cs) = (cs.getLast? == some '/') := by
  simp [isAbsolute, ofReversed]

theorem getLast?_trimTail : (trimTail cs).getLast? = cs.getLast? := by
  induction cs using trimTail.induct with
  | case1 => simp [trimTail]
  | case2 rest hne ih =>
    rw [trimTail, ih]
    · rw [List.getLast?_cons]
      cases hr : rest.getLast? with
      | none => exact absurd (List.getLast?_eq_none_iff.mp hr) hne
      | some c => rfl
    · exact hne
  | case3 rest ih =>
    rw [trimTail, ih]
    simp [List.getLast?_cons]
  | case4 cs h1 h2 h3 =>
    rw [trimTail]
    · exact h1
    · exact h2
    · exact h3

/-- Trimming a path does not change where it leads. -/
theorem placeOf_trimTail (cwd : Place) (cs : List Char) :
    placeOf cwd (ofReversed (trimTail cs)) = placeOf cwd (ofReversed cs) := by
  simp only [placeOf, startOf, isAbsolute_ofReversed, getLast?_trimTail, steps_trimTail]

theorem join_ofReversed {cs : List Char} (hcs : cs = [] ∨ cs.head? = some '/')
    (hname : IsName name) : join (ofReversed cs) name = ofReversed cs ++ name := by
  unfold join
  rcases hcs with rfl | hcs
  · simp [ofReversed]
  have hlast : (ofReversed cs).toList.getLast? = some '/' := by simpa [ofReversed] using hcs
  have hne : (ofReversed cs).isEmpty = false := by
    cases cs with
    | nil => cases hcs
    | cons c rest => simp [ofReversed, String.isEmpty_eq_false_iff]
  simp [isAbsolute_of_isName hname, hne, hlast]

theorem dropWhile_slash :
    cs.dropWhile (· ≠ '/') = [] ∨ (cs.dropWhile (· ≠ '/')).head? = some '/' := by
  cases hd : cs.dropWhile (· ≠ '/') with
  | nil => exact .inl rfl
  | cons c rest =>
    have hnot := List.head?_dropWhile_not (fun c : Char => decide (c ≠ '/')) cs
    rw [hd] at hnot
    simpa using hnot

/-- A path with a last name leads right below where its parent leads. -/
theorem placeOf_fileName {path : String} (cwd : Place) (h : fileName? path = some name) :
    IsName name ∧ placeOf cwd path = placeOf cwd ((parent? path).getD "") ++ [name] := by
  unfold fileName? at h
  dsimp only at h
  split at h
  · cases h
  rename_i hreal
  simp only [not_or] at hreal
  obtain ⟨hempty, hdot, hdots⟩ := hreal
  cases h
  have hname : IsName (ofReversed ((trimmed path).takeWhile (· ≠ '/'))) := by
    refine ⟨hempty, hdot, hdots, ?_⟩
    intro hmem
    simp only [ofReversed, String.toList_ofList, mem_reverse] at hmem
    have hall := all_eq_true.mp (all_takeWhile (l := trimmed path)) _ hmem
    simp at hall
  refine ⟨hname, ?_⟩
  have hparent : (parent? path).getD "" =
      ofReversed (trimTail ((trimmed path).dropWhile (· ≠ '/'))) := by
    unfold parent?
    split
    · rename_i hnil
      rw [hnil]
      simp [trimTail, ofReversed]
    · rename_i hroot
      rw [hroot] at hempty
      simp at hempty
    · rfl
  calc placeOf cwd path
      = placeOf cwd (ofReversed path.toList.reverse) := by simp [ofReversed]
    _ = placeOf cwd (ofReversed (trimmed path)) := (placeOf_trimTail cwd _).symm
    _ = placeOf cwd (ofReversed ((trimmed path).dropWhile (· ≠ '/')) ++
          ofReversed ((trimmed path).takeWhile (· ≠ '/'))) := by
        rw [← ofReversed_append, takeWhile_append_dropWhile]
    _ = placeOf cwd (join (ofReversed ((trimmed path).dropWhile (· ≠ '/')))
          (ofReversed ((trimmed path).takeWhile (· ≠ '/')))) := by
        rw [join_ofReversed (dropWhile_slash _) hname]
    _ = placeOf cwd ((parent? path).getD "") ++
          [ofReversed ((trimmed path).takeWhile (· ≠ '/'))] := by
        rw [placeOf_join_name hname, hparent, placeOf_trimTail]

/-- The last name of a path comes after the names of its parent. -/
theorem steps_fileName {path : String} (h : fileName? path = some name) :
    steps (names path) = steps (names ((parent? path).getD "")) ++ [name] := by
  have hroot : ∀ p, placeOf [] p = steps (names p) := by
    intro p
    simp [placeOf, startOf]
  simpa only [hroot] using (placeOf_fileName [] h).2

end Path

end Foundry
