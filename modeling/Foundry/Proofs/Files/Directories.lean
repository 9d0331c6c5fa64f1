import Foundry.Proofs.Files.Reach

/-!
# Directories and what is in them

A path leads to a directory by a way of nodes that are there. Whatever is looked up in
the directory by name is found right below it, and nothing that stands on the way is made
again. The directories above a path are led to by the first of its names.
-/

namespace Foundry

open List Path

namespace Files

/-- A path leads from a working directory to a directory; so many links may still be followed. -/
structure Leads (fs : Files) (cwd : Place) (path : String) (way : List Place) (links : Nat)
    (d : Place) : Prop where
  start : ∃ mode, fs.get? (startOf cwd path) = some (.dir mode)
  reaches : fs.Reaches maxLinks (startOf cwd path) (Path.names path) way links d

end Files

namespace Path

theorem names_trimmed (cs : List Char) :
    names (ofReversed (trimTail cs)) <+: names (ofReversed cs) := by
  obtain ⟨dots, hnames, -⟩ := names_trimTail cs
  exact ⟨dots, hnames.symm⟩

theorem names_ofReversed_append {ds ts : List Char} (hds : ds = [] ∨ ds.head? = some '/') :
    names (ofReversed (ts ++ ds)) = names (ofReversed ds) ++ names (ofReversed ts) := by
  rw [ofReversed_append]
  rcases hds with rfl | hds
  · have hempty : ofReversed [] = "" := rfl
    simp [hempty]
  cases ds with
  | nil => cases hds
  | cons c rest =>
    obtain rfl : c = '/' := by simpa using hds
    have hslash : ofReversed ('/' :: rest) = ofReversed rest ++ "/" := ofReversed_append ['/'] rest
    rw [hslash, names_append_slash, names_slash]

/-- A path leads along the names of its parent first. -/
theorem names_parent {path dir : String} (h : parent? path = some dir) :
    names dir <+: names path ∧ isAbsolute dir = isAbsolute path := by
  have hpath : ofReversed path.toList.reverse = path := by simp [ofReversed]
  have hdir : dir = ofReversed (trimTail ((trimmed path).dropWhile (· ≠ '/'))) := by
    unfold parent? at h
    split at h
    · cases h
    · cases h
    cases h
    rfl
  have hparts : names (ofReversed (trimmed path)) =
      names (ofReversed ((trimmed path).dropWhile (· ≠ '/'))) ++
        names (ofReversed ((trimmed path).takeWhile (· ≠ '/'))) := by
    rw [← names_ofReversed_append (dropWhile_slash _), takeWhile_append_dropWhile]
  have htrimmed : ofReversed (trimmed path) = ofReversed (trimTail path.toList.reverse) := rfl
  constructor
  · have hupper : names dir <+: names (ofReversed ((trimmed path).dropWhile (· ≠ '/'))) :=
      hdir ▸ names_trimmed _
    have hwhole : names (ofReversed (trimmed path)) <+: names path := by
      rw [htrimmed, ← hpath]
      simpa [ofReversed] using names_trimmed path.toList.reverse
    rw [hparts] at hwhole
    exact (hupper.trans (prefix_append _ _)).trans hwhole
  · have hlast : (trimmed path).getLast? = ((trimmed path).dropWhile (· ≠ '/')).getLast? ∨
        (trimmed path).dropWhile (· ≠ '/') = [] := by
      by_cases hempty : (trimmed path).dropWhile (· ≠ '/') = []
      · exact .inr hempty
      left
      conv_lhs =>
        rw [← takeWhile_append_dropWhile (p := fun c => decide (c ≠ '/')) (l := trimmed path)]
      rw [List.getLast?_append_of_ne_nil _ hempty]
    calc isAbsolute dir
        = (((trimmed path).dropWhile (· ≠ '/')).getLast? == some '/') := by
          rw [hdir, isAbsolute_ofReversed, getLast?_trimTail]
      _ = ((trimmed path).getLast? == some '/') := by
          rcases hlast with hlast | hempty
          · rw [hlast]
          have htake := takeWhile_append_dropWhile (p := fun c => decide (c ≠ '/'))
            (l := trimmed path)
          have hne : (trimmed path).getLast? ≠ some '/' := by
            intro hslash
            rw [hempty, append_nil] at htake
            have hmem := mem_of_getLast? hslash
            rw [← htake] at hmem
            simpa using all_eq_true.mp all_takeWhile _ hmem
          rw [hempty, List.getLast?_nil]
          simpa using hne
      _ = isAbsolute path := by
          rw [trimmed, getLast?_trimTail, ← isAbsolute_ofReversed, hpath]

end Path

namespace Files

variable {fs fs' : Files} {way : List Place} {cwd d : Place} {path : String} {links : Nat}
  {dir : String}

theorem names_of_mem_ancestors {fuel : Nat} (h : dir ∈ ancestors fuel path) :
    names dir <+: names path ∧ startOf cwd dir = startOf cwd path := by
  induction fuel generalizing path with
  | zero => cases h
  | succ fuel ih =>
    unfold ancestors at h
    split at h
    · cases h
    rcases mem_cons.mp h with rfl | h
    · exact ⟨prefix_refl _, rfl⟩
    split at h
    · rename_i up hup
      obtain ⟨hnames, hstart⟩ := ih h
      obtain ⟨hnames', habsolute⟩ := names_parent hup
      exact ⟨hnames.trans hnames', by rw [hstart, startOf, startOf, habsolute]⟩
    · cases h

/-! ## Directories above a path -/

/-- No directory is made on a way that is there. -/
theorem Leads.makeDir_ne_ok (h : fs.Leads cwd path way links d) (hc : fs.Closed)
    (hnames : names dir <+: names path) (hstart : startOf cwd dir = startOf cwd path) :
    fs.makeDir cwd dir ≠ .ok fs' := by
  intro hm
  obtain ⟨t, hl, habsent, -⟩ := makeDir_ok hm
  have hwalk := walk_of_locate hl
  rw [hstart] at hwalk
  exact h.reaches.node_ne_none hc h.start hnames hwalk ((locate_node hl).trans habsent)

/-- Where a path leads already, nothing is made for it. -/
theorem Leads.makeDirs_eq (h : fs.Leads cwd path way links d) (hc : fs.Closed)
    (hnames : names dir <+: names path) (hstart : startOf cwd dir = startOf cwd path) :
    (fs.makeDirs cwd dir).1 = fs := by
  have hstep (fs₁ fs₂ : Files) (above : String) (habove : names above <+: names path ∧
      startOf cwd above = startOf cwd path) (hm : fs₁.makeDir cwd above = .ok fs₂)
        (heq : fs₁ = fs) :
      fs₂ = fs := by
    subst heq
    exact absurd hm (h.makeDir_ne_ok hc habove.1 habove.2)
  apply makeDirs_above (motive := fun fs' => fs' = fs) hstep rfl
  intro above habove
  obtain ⟨hnames', hstart'⟩ := names_of_mem_ancestors habove
  exact ⟨hnames'.trans hnames, hstart'.trans hstart⟩

end Files

/-! ## In a directory -/

namespace Path

theorem endsWith_slash {p : String} : p.endsWith "/" = false ↔ p.toList.getLast? ≠ some '/' := by
  rw [String.endsWith_eq_endsWith_toSlice, String.Slice.endsWith_string_eq_false_iff, not_iff_not,
    List.getLast?_eq_some_iff]
  constructor
  · rintro ⟨cs, hcs⟩
    exact ⟨cs, by simpa using hcs.symm⟩
  rintro ⟨cs, hcs⟩
  exact ⟨cs, by simpa using hcs.symm⟩

theorem endsWith_join {dir name : String} (h : IsName name) :
    (join dir name).endsWith "/" = false := by
  have hlast : name.toList.getLast? ≠ some '/' := fun hslash =>
    h.no_slash (mem_of_getLast? hslash)
  have hne : name.toList ≠ [] := by simpa using h.ne_empty
  rw [endsWith_slash]
  unfold join
  split
  · exact hlast
  split
  · rwa [String.toList_append, List.getLast?_append_of_ne_nil _ hne]
  · rwa [String.toList_append, List.getLast?_append_of_ne_nil _ hne]

theorem join_ne_empty {dir name : String} (h : IsName name) : join dir name ≠ "" := by
  unfold join
  split
  · exact h.ne_empty
  · split <;> simp [h.ne_empty]

end Path

namespace Files

variable {fs fs' : Files} {way : List Place} {cwd d : Place} {dir name : String} {links : Nat}
  {follow : Bool} {t : Target} {path : String}

theorem startOf_join (hname : IsName name) : startOf cwd (join dir name) = startOf cwd dir := by
  have hrelative := isAbsolute_of_isName hname
  by_cases hdir : dir = ""
  · subst hdir
    have hempty : isAbsolute "" = false := rfl
    simp [startOf, join, hrelative, hempty]
  · simp [startOf, isAbsolute_join hdir hrelative]

theorem names_join_name (hname : IsName name) :
    names (join dir name) = names dir ++ [name] := by
  rw [names_join (isAbsolute_of_isName hname), names_of_isName hname]

/-- Without following links, a name leads right below. -/
theorem place_of_walks_name (hname : IsName name) (h : fs.Walks false links false d [name] t) :
    t.place = d ++ [name] ∧ name.utf8ByteSize ≤ maxName := by
  cases h with
  | dot hdot => exact absurd hdot hname.ne_dot
  | up hdots => exact absurd hdots hname.ne_dots
  | last hstep => exact ⟨rfl, hstep.short⟩
  | down _ hmore => exact absurd rfl hmore
  | link _ _ _ hfollow => cases hfollow

/-- What is looked up by name in a directory is right below where the directory leads. -/
theorem exists_leads (hname : IsName name) (h : fs.locate cwd false (join dir name) = .ok t) :
    ∃ way links d, fs.Leads cwd dir way links d ∧ t.place = d ++ [name] ∧
    name.utf8ByteSize ≤ maxName := by
  obtain ⟨-, hstart⟩ := nameable_of_locate h
  have hwalks := walks_of_locate h
  rw [startOf_join hname] at hstart hwalks
  rw [names_join_name hname, endsWith_join hname] at hwalks
  obtain ⟨way, links, d, hway, hlast⟩ := hwalks.exists_reaches
  obtain ⟨hplace, hsize⟩ := place_of_walks_name hname hlast
  exact ⟨way, links, d, ⟨hstart, hway⟩, hplace, hsize⟩

/-- A file in a directory whose path is not refused for its text. -/
structure Fits (dir x : String) : Prop where
  isName : IsName x
  short : x.utf8ByteSize ≤ maxName
  nameable : Nameable (join dir x)

namespace Leads

variable (h : fs.Leads cwd dir way links d)
include h

/-- A name in a directory leads right below it, unless a link is there that is followed. -/
theorem locate_name (hname : Fits dir name) (follow : Bool)
    (hplain : follow = true → ∀ target, fs.get? (d ++ [name]) ≠ some (.link target)) :
    fs.locate cwd follow (Path.join dir name) = .ok ⟨d ++ [name], fs.get? (d ++ [name]),
    false⟩ := by
  have hstart : ∃ mode, fs.get? (startOf cwd (Path.join dir name)) = some (.dir mode) := by
    rw [startOf_join hname.isName]
    exact h.start
  rw [locate_eq hname.nameable hstart, endsWith_join hname.isName, names_join_name hname.isName,
    startOf_join hname.isName, h.reaches.walk_append (cons_ne_nil _ _)]
  refine walk_last ⟨hname.isName.ne_dot, hname.isName.ne_dots, hname.short⟩ ?_
  cases hn : fs.get? (d ++ [name]) with
  | none => rfl
  | some n =>
    cases n with
    | link target =>
      cases follow with
      | false => rfl
      | true => exact absurd hn (hplain rfl target)
    | dir | file | program | device => rfl

/-- A directory is found by its name in another one. -/
theorem find_join (hname : IsName name)
    (hpath : Nameable (join dir name)) (hsize : name.utf8ByteSize ≤ maxName) {mode : Nat}
    (hdir : fs.get? (d ++ [name]) = some (.dir mode)) :
    fs.find cwd follow (join dir name) = .ok (d ++ [name], .dir mode) := by
  have hlocate := h.locate_name ⟨hname, hsize, hpath⟩ follow (by simp [hdir])
  simp [find, hlocate, hdir, bind, Except.bind]

/-- A directory below another one is led to by its name. -/
theorem join (hname : IsName name)
    (hsize : name.utf8ByteSize ≤ maxName) {mode : Nat}
    (hdir : fs.get? (d ++ [name]) = some (.dir mode)) :
    fs.Leads cwd (join dir name) (way ++ [d ++ [name]]) links (d ++ [name]) := by
  have hway := h.reaches.append (.down ⟨hname.ne_dot, hname.ne_dots, hsize⟩ hdir (.here _ _))
  constructor
  · rw [startOf_join hname]
    exact h.start
  rw [startOf_join hname, names_join_name hname]
  exact hway

/-- A way stays if what stands on it does. -/
theorem of_change
    (hsame : ∀ q ∈ startOf cwd dir :: way, fs'.get? q = fs.get? q) :
    fs'.Leads cwd dir way links d := by
  have hway (q : Place) (hq : q ∈ way) : fs'.get? q = fs.get? q := hsame q (mem_cons_of_mem _ hq)
  refine ⟨?_, h.reaches.of_change ?_ ?_⟩
  · rw [hsame _ mem_cons_self]
    exact h.start
  · intro q hq mode hdir
    exact ⟨mode, by rw [hway q hq, hdir]⟩
  intro q hq target hlink
  rw [hway q hq, hlink]

theorem dir_or_link {q : Place} (hq : q ∈ startOf cwd dir :: way) :
    (∃ mode, fs.get? q = some (.dir mode)) ∨ ∃ target, fs.get? q = some (.link target) := by
  rcases mem_cons.mp hq with rfl | hq
  · exact .inl h.start
  · exact h.reaches.dir_or_link q hq

theorem unique {way' : List Place} {links' : Nat} {d' : Place}
    (h' : fs.Leads cwd dir way' links' d') : way = way' ∧ links = links' ∧ d = d' :=
  h.reaches.unique h'.reaches

theorem isDir (hc : fs.Closed) : ∃ mode, fs.get? d = some (.dir mode) :=
  h.reaches.isDir hc h.start

/-- Below a directory, a path without `..` leads to the place it spells, if it meets no link. -/
theorem locate_place {part : List String} (hname : IsName name)
    (hnames : names path = names dir ++ (name :: part))
    (hstart : startOf cwd path = startOf cwd dir)
    (hdots : ".." ∉ part) (hu : fs.Unlinked (d ++ [name] ++ steps part))
    (hl : fs.locate cwd follow path = .ok t) : t.place = d ++ [name] ++ steps part := by
  have hmore : ".." ∉ name :: part := by
    simp only [mem_cons, not_or]
    exact ⟨Ne.symm hname.ne_dots, hdots⟩
  have hwalk := walk_of_locate hl
  rw [hstart, hnames, h.reaches.walk_append (cons_ne_nil _ _)] at hwalk
  rw [← append_steps hname.ne_dot] at hu ⊢
  exact (walks_of_walk hwalk).place hmore hu

end Leads

end Files

end Foundry
