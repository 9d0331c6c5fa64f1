import Foundry.Proofs.Files.Directories

/-!
# Rooms

A room is a directory right below another one that the way to the other one does not come
by. Paths that start with the room's own lead into it, so what is done along them leaves
everything else alone. Rooms under different names do not disturb each other.
-/

namespace Foundry

open List Path

namespace Files

variable {fs fs' : Files} {cwd d : Place} {dir name : String} {way : List Place} {links : Nat}
  {loose : Place → Prop}

/-- What stands on the way to a directory, at it and below it is as it was, but for loose places. -/
structure Spares (fs fs' : Files) (cwd : Place) (dir : String) (loose : Place → Prop) : Prop where
  closed : fs.Closed → fs'.Closed
  kept : ∀ way links d, fs.Leads cwd dir way links d →
    ∀ q, q ∈ startOf cwd dir :: way ∨ d <+: q → ¬ loose q → fs'.get? q = fs.get? q

theorem Spares.leads (hs : fs.Spares fs' cwd dir loose) (h : fs.Leads cwd dir way links d)
    (hway : ∀ q ∈ startOf cwd dir :: way, ¬ loose q) : fs'.Leads cwd dir way links d :=
  h.of_change fun q hq => hs.kept way links d h q (.inl hq) (hway q hq)

/-- A path leads to a directory by a way that does not come by a name in it. -/
def Skirts (fs : Files) (cwd : Place) (dir : String) (d : Place) (name : String) : Prop :=
  ∃ way links, fs.Leads cwd dir way links d ∧ ∀ q ∈ startOf cwd dir :: way, ¬ d ++ [name] <+: q

/-- A way comes by nothing that is not there. -/
theorem Leads.skirts (h : fs.Leads cwd dir way links d) (hc : fs.Closed)
    (habsent : fs.get? (d ++ [name]) = none) : fs.Skirts cwd dir d name := by
  refine ⟨way, links, h, fun q hq hpre => ?_⟩
  have hgone := hc.get?_within habsent hpre
  rcases h.dir_or_link hq with ⟨mode, hdir⟩ | ⟨target, hlink⟩ <;> simp_all

structure Room (fs : Files) (cwd : Place) (dir : String) (d : Place) (name : String) : Prop where
  isName : Path.IsName name
  nameable : Nameable (Path.join dir name)
  short : name.utf8ByteSize ≤ maxName
  isDir : ∃ mode, fs.get? (d ++ [name]) = some (.dir mode)
  leads : fs.Skirts cwd dir d name

/-- What is below one place is not below another one beside it. -/
theorem not_prefix_of_ne {q : Place} {name' : String} (hne : name ≠ name')
    (hq : d ++ [name] <+: q) : ¬ d ++ [name'] <+: q := by
  intro hq'
  have heq : d ++ [name] = d ++ [name'] := by
    rcases prefix_or_prefix_of_prefix hq hq' with hp | hp
    · exact hp.eq_of_length (by simp)
    · exact (hp.eq_of_length (by simp)).symm
  simp [hne] at heq

namespace Room

variable (h : fs.Room cwd dir d name)
include h

theorem find (follow : Bool) :
    ∃ mode, fs.find cwd follow (Path.join dir name) = .ok (d ++ [name], .dir mode) := by
  obtain ⟨way, links, hleads, -⟩ := h.leads
  obtain ⟨mode, hdir⟩ := h.isDir
  exact ⟨mode, hleads.find_join h.isName h.nameable h.short hdir⟩

/-- The way to a room's directory does not come by the room. -/
theorem off_way {d' : Place} (hleads : fs.Leads cwd dir way links d')
    {q : Place} (hq : q ∈ startOf cwd dir :: way) : ¬ d ++ [name] <+: q := by
  obtain ⟨way', links', hleads', hoff⟩ := h.leads
  obtain ⟨rfl, -, -⟩ := hleads.unique hleads'
  exact hoff q hq

theorem place_unique {d' : Place} {name' : String} (h' : fs.Room cwd dir d' name') : d = d' := by
  obtain ⟨way, links, hleads, -⟩ := h.leads
  obtain ⟨way', links', hleads', -⟩ := h'.leads
  exact (hleads.unique hleads').2.2

/-- A room stays as long as its directory does and all changes are in it. -/
theorem of_alters (halters : ∀ q, ¬ d ++ [name] <+: q → fs'.get? q = fs.get? q)
    (hdir : ∃ mode, fs'.get? (d ++ [name]) = some (.dir mode)) : fs'.Room cwd dir d name := by
  obtain ⟨way, links, hleads, hoff⟩ := h.leads
  have hleads' : fs'.Leads cwd dir way links d := hleads.of_change fun q hq => halters q (hoff q hq)
  exact ⟨h.isName, h.nameable, h.short, hdir, way, links, hleads', hoff⟩

theorem of_spares (hs : fs.Spares fs' cwd dir loose)
    (hway : ∀ way links, fs.Leads cwd dir way links d → ∀ q ∈ startOf cwd dir :: way, ¬ loose q)
    (hdir : ¬ loose (d ++ [name])) : fs'.Room cwd dir d name := by
  obtain ⟨way, links, hleads, hoff⟩ := h.leads
  refine ⟨h.isName, h.nameable, h.short, ?_, way, links, hs.leads hleads (hway way links hleads),
    hoff⟩
  rw [hs.kept way links d hleads _ (.inr (prefix_append d [name])) hdir]
  exact h.isDir

end Room

theorem Skirts.room_put (h : fs.Skirts cwd dir d name) (hname : Path.IsName name)
    (hpath : Nameable (Path.join dir name)) (hsize : name.utf8ByteSize ≤ maxName) :
    (fs.put (d ++ [name]) (.dir dirMode)).Room cwd dir d name := by
  have hsets := sets_put fs (.dir dirMode) (show d ++ [name] ≠ [] by simp)
  obtain ⟨way, links, hleads, hoff⟩ := h
  refine ⟨hname, hpath, hsize, ⟨dirMode, by rw [hsets, if_pos rfl]⟩, way, links,
    hleads.of_change fun q hq => ?_, hoff⟩
  rw [hsets, if_neg]
  rintro rfl
  exact hoff _ hq (prefix_refl _)

/-- A directory that can be made is a room, and was not there before. -/
theorem room_of_makeDir (hc : fs.Closed) (hname : Path.IsName name)
    (hm : fs.makeDir cwd (Path.join dir name) = .ok fs') :
    ∃ d, fs.get? (d ++ [name]) = none ∧ fs.Sets fs' (d ++ [name]) (.dir dirMode) ∧
    fs'.Room cwd dir d name ∧ fs.Skirts cwd dir d name := by
  obtain ⟨t, hl, habsent, hne, rfl⟩ := makeDir_ok hm
  obtain ⟨way, links, d, hleads, hplace, hsize⟩ := exists_leads hname hl
  rw [hplace] at habsent hne ⊢
  have hskirts : fs.Skirts cwd dir d name := hleads.skirts hc habsent
  exact ⟨d, habsent, sets_put fs _ hne, hskirts.room_put hname (nameable_of_locate hl).1 hsize,
    hskirts⟩

namespace Room

theorem setMode (h : fs.Room cwd dir d name) {mode : Nat}
    (hm : fs.setMode cwd (Path.join dir name) mode = .ok fs') :
    fs.Sets fs' (d ++ [name]) (.dir mode) := by
  obtain ⟨old, hfind⟩ := h.find true
  simp only [Files.setMode, hfind, bind, Except.bind] at hm
  cases hm
  exact sets_put fs _ (by simp)

/-- A room is removed with all it holds. -/
theorem removeTree (h : fs.Room cwd dir d name) :
    ∃ fs', fs.removeTree cwd (Path.join dir name) = (fs', .ok ()) ∧
    ∀ q, fs'.get? q = if d ++ [name] <+: q then none else fs.get? q := by
  obtain ⟨mode, hfind⟩ := h.find false
  have hempty (q : Place) : (fs.eraseBelow (d ++ [name])).get? q =
      if IsBelow (d ++ [name]) q then none else fs.get? q := get?_eraseBelow fs _ q
  have hagain : (fs.eraseBelow (d ++ [name])).Room cwd dir d name := by
    apply h.of_alters
    · intro q hq
      rw [hempty, if_neg fun hbelow => hq hbelow.1]
    rw [hempty, if_neg fun hbelow => hbelow.2 rfl]
    exact h.isDir
  obtain ⟨mode', hfind'⟩ := hagain.find false
  have hlast : lastNameError? (Path.join dir name) = none := by
    rw [lastNameError?, names_join_name h.isName, List.getLast?_concat]
    split
    · rename_i heq
      cases heq
    · rename_i heq
      cases heq
      exact absurd rfl h.isName.ne_dot
    · rename_i heq
      cases heq
      exact absurd rfl h.isName.ne_dots
    · rfl
  refine ⟨(fs.eraseBelow (d ++ [name])).erase (d ++ [name]), ?_, ?_⟩
  · simp only [Files.removeTree, hfind, hfind', hlast]
  intro q
  rw [get?_erase, hempty]
  by_cases heq : q = d ++ [name]
  · subst heq
    simp
  by_cases hpre : d ++ [name] <+: q
  · simp [heq, hpre, IsBelow, Ne.symm heq]
  · simp [heq, hpre, IsBelow]

end Room

/-- Files get directories in a room that were not there, all of them above a path into it. -/
def GrowsIn (fs fs' : Files) (room path : Place) : Prop :=
  ∀ q, fs'.get? q = fs.get? q ∨
    fs.get? q = none ∧ (∃ mode, fs'.get? q = some (.dir mode)) ∧ IsBelow room q ∧ q <+: room ++ path

namespace GrowsIn

variable {room path : Place}

theorem refl : fs.GrowsIn fs room path := fun _ => .inl rfl

variable (h : fs.GrowsIn fs' room path)
include h

theorem trans {fs'' : Files} (h' : fs'.GrowsIn fs'' room path) : fs.GrowsIn fs'' room path := by
  intro q
  rcases h' q with hsame | ⟨hnone, hmore⟩
  · rw [hsame]
    exact h q
  rcases h q with hsame | ⟨-, ⟨mode, hdir⟩, -⟩
  · rw [hsame] at hnone
    exact .inr ⟨hnone, hmore⟩
  rw [hdir] at hnone
  cases hnone

theorem kept {q : Place} (hq : fs.get? q ≠ none) : fs'.get? q = fs.get? q := by
  rcases h q with hsame | ⟨hnone, -⟩
  · exact hsame
  · exact absurd hnone hq

theorem outside {q : Place} (hq : ¬ IsBelow room q) : fs'.get? q = fs.get? q := by
  rcases h q with hsame | ⟨-, -, hbelow, -⟩
  · exact hsame
  · exact absurd hbelow hq

theorem plain
    (hplain : ∀ q n, IsBelow room q → fs.get? q = some n → n.isPlain = true) (q : Place) (n : Node)
    (hq : IsBelow room q) (hn : fs'.get? q = some n) : n.isPlain = true := by
  rcases h q with hsame | ⟨-, ⟨mode, hdir⟩, -⟩
  · exact hplain q n hq (hsame ▸ hn)
  rw [hdir] at hn
  cases hn
  rfl

end GrowsIn

theorem Room.of_growsIn (h : fs.Room cwd dir d name) {path : Place}
    (hg : fs.GrowsIn fs' (d ++ [name]) path) : fs'.Room cwd dir d name := by
  apply h.of_alters
  · exact fun q hq => hg.outside fun hbelow => hq hbelow.1
  rw [hg.outside fun hbelow => hbelow.2 rfl]
  exact h.isDir

/-! ## Paths into a room -/

section Inside

variable {file : String}

theorem names_inside (hname : Path.IsName name) (hfile : isAbsolute file = false) :
    names (Path.join (Path.join dir name) file) = names dir ++ (name :: names file) := by
  rw [names_join hfile, names_join_name hname, append_assoc, singleton_append]

theorem startOf_inside (hname : Path.IsName name) (hfile : isAbsolute file = false) :
    startOf cwd (Path.join (Path.join dir name) file) = startOf cwd dir := by
  have hjoin : startOf cwd (Path.join dir name) = startOf cwd dir := startOf_join hname
  rw [← hjoin, startOf, startOf, isAbsolute_join (join_ne_empty hname) hfile]

/-- What is above a path into a room is on the way to it. -/
theorem above_inside (hname : Path.IsName name) (hfile : isAbsolute file = false) {above : String}
    (h : parent? (Path.join (Path.join dir name) file) = some above) :
    names above <+: names dir ++ (name :: names file) ∧ startOf cwd above = startOf cwd dir := by
  obtain ⟨hnames, habsolute⟩ := names_parent h
  refine ⟨names_inside hname hfile ▸ hnames, ?_⟩
  rw [startOf, habsolute]
  exact startOf_inside hname hfile

variable (h : fs.Room cwd dir d name) (hc : fs.Closed)
  (hplain : ∀ q n, IsBelow (d ++ [name]) q → fs.get? q = some n → n.isPlain = true)
include h hc hplain

theorem Room.unlinked (rel : Place) : fs.Unlinked (d ++ [name] ++ rel) := by
  intro q hq target hlink
  obtain ⟨mode, hdir⟩ := h.isDir
  rcases prefix_or_prefix_of_prefix hq (prefix_append (d ++ [name]) rel) with hup | hdown
  · exact hc.unlinked hdir q hup target hlink
  by_cases heq : d ++ [name] = q
  · rw [← heq, hdir] at hlink
    cases hlink
  · cases hplain q _ ⟨hdown, heq⟩ hlink

/-- A path into a room leads to the place it spells. -/
theorem Room.locate_place {path : String} {part : List String} {follow : Bool} {t : Target}
    (hnames : names path = names dir ++ (name :: part))
    (hstart : startOf cwd path = startOf cwd dir) (hdots : ".." ∉ part)
    (hl : fs.locate cwd follow path = .ok t) : t.place = d ++ [name] ++ steps part := by
  obtain ⟨way, links, hleads, -⟩ := h.leads
  exact hleads.locate_place h.isName hnames hstart hdots (h.unlinked hc hplain (steps part)) hl

/-- A file that can be written is in the room. -/
theorem Room.write (hfile : isAbsolute file = false) (hdots : ".." ∉ names file) {bytes : ByteArray}
    (hw : fs.write cwd (Path.join (Path.join dir name) file) bytes = .ok fs') :
    steps (names file) ≠ [] ∧
    ∃ id mode, fs.Sets fs' (d ++ [name] ++ steps (names file)) (.file id bytes mode) := by
  obtain ⟨t, hl, hcase⟩ := edit_ok hw
  have hplace := h.locate_place hc hplain (names_inside h.isName hfile)
    (startOf_inside h.isName hfile) hdots hl
  rw [hplace] at hcase
  obtain ⟨mode, hdir⟩ := h.isDir
  have hne : steps (names file) ≠ [] := by
    intro hnil
    rw [hnil, append_nil, hdir] at hcase
    rcases hcase with ⟨id, old, mode', -, hnode | ⟨hnode, -⟩⟩ | ⟨-, dev, hnode⟩
    · cases hnode
    · cases hnode
    · cases hnode
  refine ⟨hne, ?_⟩
  rcases hcase with ⟨id, old, mode', hsets, -⟩ | ⟨-, dev, hnode⟩
  · exact ⟨id, mode', hsets⟩
  have hbelow : IsBelow (d ++ [name]) (d ++ [name] ++ steps (names file)) :=
    ⟨prefix_append _ _, by simpa using hne⟩
  have hnode := hplain _ _ hbelow hnode
  cases hnode

/-- A directory that can be made for a path into a room is in the room: those above it are there. -/
theorem Room.growsIn_makeDir {inner : List String} (hdots : ".." ∉ inner) {above : String}
    (hnames : names above <+: names dir ++ (name :: inner))
    (hstart : startOf cwd above = startOf cwd dir) (hm : fs.makeDir cwd above = .ok fs') :
    fs.GrowsIn fs' (d ++ [name]) (steps inner) := by
  obtain ⟨mode, hdir⟩ := h.isDir
  obtain ⟨way, links, hleads, -⟩ := h.leads
  have hroom := hleads.join h.isName h.short hdir
  have hsplit : names dir ++ (name :: inner) =
      names (Path.join dir name) ++ inner := by
    simp [names_join_name h.isName]
  rw [hsplit] at hnames
  rcases prefix_or_prefix_of_prefix hnames (prefix_append _ _) with hup | ⟨part, hpart⟩
  · exact absurd hm (hroom.makeDir_ne_ok hc hup (hstart.trans (startOf_join h.isName).symm))
  rw [← hpart, prefix_append_right_inj] at hnames
  rw [names_join_name h.isName, append_assoc, singleton_append] at hpart
  have hpartDots : ".." ∉ part := fun hmem => hdots (hnames.subset hmem)
  obtain ⟨t, hl, habsent, hroot, rfl⟩ := makeDir_ok hm
  rw [h.locate_place hc hplain hpart.symm hstart hpartDots hl] at habsent hroot ⊢
  have hne : steps part ≠ [] := by
    intro hnil
    rw [hnil, append_nil, hdir] at habsent
    cases habsent
  intro q
  rw [sets_put fs (.dir dirMode) hroot q]
  split
  · rename_i hq
    subst hq
    refine .inr ⟨habsent, ⟨dirMode, rfl⟩, ⟨prefix_append _ _, by simpa using hne⟩, ?_⟩
    exact (prefix_append_right_inj _).mpr (hnames.filter _)
  · exact .inl rfl

/-- Directories that are made for a path into a room are in the room. -/
theorem Room.growsIn_makeDirs {inner : List String} (hdots : ".." ∉ inner) {path : String}
    (hnames : names path <+: names dir ++ (name :: inner))
    (hstart : startOf cwd path = startOf cwd dir) :
    fs.GrowsIn (fs.makeDirs cwd path).1 (d ++ [name]) (steps inner) := by
  have hstep (fs₁ fs₂ : Files) (above : String)
      (habove : names above <+: names dir ++ (name :: inner) ∧
        startOf cwd above = startOf cwd dir)
      (hm : fs₁.makeDir cwd above = .ok fs₂)
      (hgrown : fs₁.Closed ∧ fs.GrowsIn fs₁ (d ++ [name]) (steps inner)) :
      fs₂.Closed ∧ fs.GrowsIn fs₂ (d ++ [name]) (steps inner) := by
    obtain ⟨hc₁, hgrown⟩ := hgrown
    refine ⟨hc₁.makeDir hm, hgrown.trans ?_⟩
    exact (h.of_growsIn hgrown).growsIn_makeDir hc₁ (hgrown.plain hplain) hdots habove.1 habove.2 hm
  have habove (above : String) (hmem : above ∈ ancestors (path.length + 1) path) :
      names above <+: names dir ++ (name :: inner) ∧
        startOf cwd above = startOf cwd dir := by
    obtain ⟨hnames', hstart'⟩ := names_of_mem_ancestors hmem
    exact ⟨hnames'.trans hnames, hstart'.trans hstart⟩
  exact (makeDirs_above (motive := fun fs' =>
    fs'.Closed ∧ fs.GrowsIn fs' (d ++ [name]) (steps inner)) hstep ⟨hc, .refl⟩ habove).2

end Inside

/-! ## What a room holds -/

/-- A room holds files with known contents, and besides them directories above some paths. -/
structure Holds (fs : Files) (room : Place) (paths : List Place)
    (contents : Place → Option ByteArray) : Prop where
  files : ∀ rel bytes, contents rel = some bytes →
    rel ≠ [] ∧ ∃ id mode, fs.get? (room ++ rel) = some (.file id bytes mode)
  only : ∀ rel n, rel ≠ [] → fs.get? (room ++ rel) = some n →
    (∃ path ∈ paths, rel <+: path) ∧ (contents rel = none → n.isDir = true)

namespace Holds

variable {room : Place} {paths : List Place} {contents : Place → Option ByteArray}

variable (h : fs.Holds room paths contents)
include h

theorem plain (q : Place) (n : Node) (hq : IsBelow room q)
    (hn : fs.get? q = some n) : n.isPlain = true := by
  obtain ⟨⟨rel, rfl⟩, hne⟩ := hq
  have hrel : rel ≠ [] := by simpa using hne
  cases hcontents : contents rel with
  | none =>
    have hdir := (h.only rel n hrel hn).2 hcontents
    cases n with
    | dir mode => rfl
    | _ => cases hdir
  | some bytes =>
    obtain ⟨-, id, mode, hfile⟩ := h.files rel bytes hcontents
    rw [hfile] at hn
    cases hn
    rfl

theorem of_same
    (hsame : ∀ q, IsBelow room q → fs'.get? q = fs.get? q) : fs'.Holds room paths contents := by
  have hrel (rel : Place) (hrel : rel ≠ []) : fs'.get? (room ++ rel) = fs.get? (room ++ rel) :=
    hsame _ ⟨prefix_append _ _, by simpa using hrel⟩
  constructor
  · intro rel bytes hbytes
    obtain ⟨hne, id, mode, hfile⟩ := h.files rel bytes hbytes
    exact ⟨hne, id, mode, by rw [hrel rel hne, hfile]⟩
  · intro rel n hne hn
    rw [hrel rel hne] at hn
    exact h.only rel n hne hn

theorem of_growsIn {path : Place} (hpath : path ∈ paths)
    (hg : fs.GrowsIn fs' room path) : fs'.Holds room paths contents := by
  constructor
  · intro rel bytes hbytes
    obtain ⟨hne, id, mode, hfile⟩ := h.files rel bytes hbytes
    exact ⟨hne, id, mode, by rw [hg.kept (by simp [hfile]), hfile]⟩
  · intro rel n hne hn
    rcases hg (room ++ rel) with hsame | ⟨-, ⟨mode, hdir⟩, -, hpre⟩
    · exact h.only rel n hne (hsame ▸ hn)
    rw [hdir] at hn
    cases hn
    exact ⟨⟨path, hpath, (prefix_append_right_inj room).mp hpre⟩, fun _ => rfl⟩

/-- Writing a file adds it to what is known. -/
theorem of_sets {path : Place} {id mode : Nat} {bytes : ByteArray}
    (hpath : path ∈ paths) (hne : path ≠ [])
    (hs : fs.Sets fs' (room ++ path) (.file id bytes mode)) :
    fs'.Holds room paths (Function.update contents path (some bytes)) := by
  constructor
  · intro rel bytes' hbytes
    rw [hs]
    by_cases hrel : rel = path
    · subst hrel
      rw [Function.update_self, Option.some.injEq] at hbytes
      exact ⟨hne, id, mode, by rw [if_pos rfl, hbytes]⟩
    · rw [Function.update_of_ne hrel] at hbytes
      rw [if_neg (by simpa using hrel)]
      exact h.files rel bytes' hbytes
  · intro rel n hne hn
    by_cases hrel : rel = path
    · subst hrel
      exact ⟨⟨rel, hpath, prefix_refl rel⟩, by simp⟩
    rw [hs, if_neg (by simpa using hrel)] at hn
    rw [Function.update_of_ne hrel]
    exact h.only rel n hne hn

end Holds

end Files

end Foundry
