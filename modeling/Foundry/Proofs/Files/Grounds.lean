import Foundry.Proofs.Files.Removal

/-!
# Grounds

The ground of a directory is what is around it: the way to where it stands and the lock file
beside it. On its ground a directory is removed whatever is in its place, and grows again from
nothing, by the directories made for a file and the files written into it.
-/

namespace Foundry

open List Path

namespace Files

variable {paths : List Place} {bytes : ByteArray}
variable {fs fs' fs₁ fs₂ : Files} {cwd d : Place} {dir name file : String} {id : Nat}

/-- A place where a directory can stand: the way there does not come by the directory. -/
structure Stead (fs : Files) (cwd : Place) (dir : String) (d : Place) (name : String) : Prop where
  closed : fs.Closed
  leads : fs.Skirts cwd dir d name

/-- A directory's place may hold anything that can be removed, and a plain file of a known number
is the lock beside it. -/
structure Ground (fs : Files) (cwd : Place) (dir : String) (d : Place) (name : String) (id : Nat) :
    Prop extends fs.Stead cwd dir d name where
  removable : ∀ n, fs.get? (d ++ [name]) = some n → n.isDir = true ∨ n.isLink = true
  lock : ∃ bytes mode, fs.get? (d ++ [name ++ ".lock"]) = some (.file id bytes mode)

theorem not_prefix_lock (d : Place) (name : String) : ¬ d ++ [name] <+: d ++ [name ++ ".lock"] := by
  have hne : name ++ ".lock" ≠ name := by
    intro h
    have hsize := congrArg String.utf8ByteSize h
    rw [String.utf8ByteSize_append] at hsize
    have hlock : ".lock".utf8ByteSize = 5 := rfl
    omega
  exact not_prefix_of_ne hne (prefix_refl _)

namespace Ground

variable (h : fs.Ground cwd dir d name id)
include h

/-- The ground stays when only what is at the directory or below it changes. -/
theorem of_alters (hc : fs'.Closed) (halters : ∀ q, ¬ d ++ [name] <+: q → fs'.get? q = fs.get? q)
    (hroot : ∀ n, fs'.get? (d ++ [name]) = some n → n.isDir = true ∨ n.isLink = true) :
    fs'.Ground cwd dir d name id := by
  obtain ⟨way, links, hleads, hoff⟩ := h.leads
  obtain ⟨bytes, mode, hlock⟩ := h.lock
  refine ⟨⟨hc, way, links, hleads.of_change fun q hq => halters q (hoff q hq), hoff⟩, hroot, bytes,
    mode, ?_⟩
  rw [halters _ (not_prefix_lock d name), hlock]

theorem room (hx : Fits dir name) (hdir : ∃ mode, fs.get? (d ++ [name]) = some (.dir mode)) :
    fs.Room cwd dir d name :=
  ⟨hx.isName, hx.nameable, hx.short, hdir, h.leads⟩

/-- Whatever is at the directory's place can be removed, if anything is. -/
theorem exists_removed (hx : Fits dir name) :
    ∃ fs' r, fs.removeTree cwd (join dir name) = (fs', r) ∧ (r = .ok () ∨ r = .error .notFound) ∧
    ∀ q, fs'.get? q = if d ++ [name] <+: q then none else fs.get? q := by
  obtain ⟨way, links, hleads, -⟩ := h.leads
  have hl := hleads.locate_name hx false (by simp)
  cases hn : fs.get? (d ++ [name]) with
  | none =>
    have hfind : fs.find cwd false (join dir name) = .error .notFound := by
      rw [Files.find, hl, hn]
      rfl
    refine ⟨fs, .error .notFound, by rw [removeTree, hfind], .inr rfl, fun q => ?_⟩
    split
    · exact h.closed.get?_within hn ‹_›
    · rfl
  | some n =>
    cases n with
    | dir mode =>
      obtain ⟨fs', hremove, hall⟩ := (h.room hx ⟨mode, hn⟩).removeTree
      exact ⟨fs', .ok (), hremove, .inl rfl, hall⟩
    | link target =>
      have hfind : fs.find cwd false (join dir name) = .ok (d ++ [name], .link target) := by
        rw [Files.find, hl, hn]
        rfl
      refine ⟨fs.erase (d ++ [name]), .ok (), by rw [removeTree, hfind], .inl rfl, fun q => ?_⟩
      rw [get?_erase]
      by_cases heq : q = d ++ [name]
      · simp [heq]
      by_cases hq : d ++ [name] <+: q
      · simp [heq, hq, h.closed.get?_below (by simp [hn]) ⟨hq, Ne.symm heq⟩]
      · simp [heq, hq]
    | _ => simpa [Node.isDir, Node.isLink] using h.removable _ hn

theorem of_removed (hall : ∀ q, fs'.get? q = if d ++ [name] <+: q then none else fs.get? q) :
    fs'.Ground cwd dir d name id := by
  refine h.of_alters ?_ (fun q hq => by rw [hall, if_neg hq]) (fun n hn => ?_)
  · intro q x n hn
    rw [hall] at hn ⊢
    split at hn
    · cases hn
    rename_i hout
    rw [if_neg fun hq => hout (hq.trans (prefix_append q [x]))]
    exact h.closed q x n hn
  · rw [hall, if_pos (prefix_refl _)] at hn
    cases hn

/-- Writing to files by their numbers does not touch directories and links. -/
theorem editId (i : Nat) (f : ByteArray → ByteArray) :
    (fs.editId i f).Ground cwd dir d name id := by
  obtain ⟨way, links, hleads, hoff⟩ := h.leads
  obtain ⟨bytes, mode, hlock⟩ := h.lock
  refine ⟨⟨h.closed.editId i f, way, links, hleads.of_change fun q hq => ?_, hoff⟩, fun n hn => ?_,
    ?_⟩
  · rcases hleads.dir_or_link hq with ⟨mode, hdir⟩ | ⟨target, hlink⟩
    · rw [get?_editId, hdir]
      rfl
    rw [get?_editId, hlink]
    rfl
  · rw [get?_editId] at hn
    obtain ⟨was, hwas, rfl⟩ := Option.map_eq_some_iff.mp hn
    rcases h.removable was hwas with
      hw | hw <;> cases was <;> simp_all [editNode, Node.isDir, Node.isLink]
  · rw [get?_editId, hlock]
    by_cases hi : id = i
    · exact ⟨f bytes, mode, by simp [editNode, hi]⟩
    · exact ⟨bytes, mode, by simp [editNode, hi]⟩

end Ground

/-! ## Growing from nothing -/

/-- Nothing is at a place or below it. -/
def Gone (fs : Files) (p : Place) : Prop := ∀ q, p <+: q → fs.get? q = none

/-- A path whose place is inside the directory that it is taken from. -/
structure Inward (file : String) : Prop where
  isRelative : Path.isAbsolute file = false
  down : ".." ∉ Path.names file
  some_step : steps (Path.names file) ≠ []

/-- A directory has not been made yet, or it has, with directories above some path in it. -/
def Begun (fs fs' : Files) (room path : Place) : Prop :=
  fs' = fs ∨ (fs.put room (.dir dirMode)).GrowsIn fs' room path

section Begun

variable {path : Place} {above : String}
variable (h : fs.Stead cwd dir d name) (hgone : fs.Gone (d ++ [name]))
include h hgone

theorem Gone.unlinked (rel : Place) : fs.Unlinked (d ++ [name] ++ rel) := by
  obtain ⟨way, links, hleads, -⟩ := h.leads
  obtain ⟨mode, hdir⟩ := hleads.isDir h.closed
  intro q hq target hlink
  rcases prefix_or_prefix_of_prefix hq (prefix_append (d ++ [name]) rel) with hup | hdown
  · rcases prefix_concat_iff.mp hup with rfl | hup
    · rw [hgone _ (prefix_refl _)] at hlink
      cases hlink
    · exact h.closed.unlinked hdir q hup target hlink
  · rw [hgone q hdown] at hlink
    cases hlink

variable (hx : Fits dir name)
include hx

/-- A path into a directory that is not there leads nowhere but to the directory itself. -/
theorem Gone.steps_eq_nil {path : String} {part : List String} {follow : Bool} {t : Target}
    (hnames : names path = names dir ++ (name :: part))
    (hstart : startOf cwd path = startOf cwd dir)
    (hdots : ".." ∉ part) (hl : fs.locate cwd follow path = .ok t) :
    t.place = d ++ [name] ∧ steps part = [] := by
  obtain ⟨way, links, hleads, -⟩ := h.leads
  have hplace := hleads.locate_place hx.isName hnames hstart hdots (hgone.unlinked h (steps part))
    hl
  have hnone : t.node = none := by
    rw [locate_node hl, hplace]
    exact hgone _ (prefix_append _ _)
  obtain ⟨q, x, mode, hq, hdir⟩ := h.closed.hasParent_locate hl hnone
  -- The directory above the place is there, so it is not below the one that is gone.
  have hnil : steps part = [] := by
    by_contra hne
    have hpre : d ++ [name] <+: q := by
      rw [hplace] at hq
      obtain ⟨init, last, hlast⟩ := eq_nil_or_concat (steps part) |>.resolve_left hne
      rw [hlast, concat_eq_append, ← append_assoc] at hq
      rw [← (append_inj' hq rfl).1]
      exact prefix_append _ _
    rw [hgone q hpre] at hdir
    cases hdir
  exact ⟨by rw [hplace, hnil, append_nil], hnil⟩

theorem Begun.room (hg : (fs.put (d ++ [name]) (.dir dirMode)).GrowsIn fs₁ (d ++ [name]) path)
    {paths : List Place} (hpath : path ∈ paths) :
    fs₁.Room cwd dir d name ∧ fs₁.Holds (d ++ [name]) paths fun _ => none := by
  have hsets : fs.Sets (fs.put (d ++ [name]) (.dir dirMode)) (d ++ [name]) (.dir dirMode) :=
    sets_put fs _ (by simp)
  have hempty : (fs.put (d ++ [name]) (.dir dirMode)).Holds (d ++ [name]) paths fun _ => none := by
    refine ⟨?_, fun rel n hrel hn => ?_⟩
    · simp
    rw [hsets, if_neg (by simpa using hrel), hgone _ (prefix_append _ _)] at hn
    cases hn
  exact ⟨(h.leads.room_put hx.isName hx.nameable hx.short).of_growsIn hg,
    hempty.of_growsIn hpath hg⟩

/-- Making a directory on the way to a file makes the directory itself, or one in it. -/
theorem Begun.makeDir {inner : List String} (hdots : ".." ∉ inner)
    (hnames : names above <+: names dir ++ (name :: inner))
    (hstart : startOf cwd above = startOf cwd dir) (hc : fs₁.Closed)
    (hb : fs.Begun fs₁ (d ++ [name]) (steps inner)) (hm : fs₁.makeDir cwd above = .ok fs₂) :
    fs.Begun fs₂ (d ++ [name]) (steps inner) := by
  rcases hb with rfl | hg
  · obtain ⟨way, links, hleads, -⟩ := h.leads
    rcases prefix_or_prefix_of_prefix hnames (prefix_append _ _) with hup | ⟨rest, hrest⟩
    · exact absurd hm (hleads.makeDir_ne_ok hc hup hstart)
    rw [← hrest, prefix_append_right_inj, prefix_cons_iff] at hnames
    rcases hnames with rfl | ⟨part, rfl, hpart⟩
    · exact absurd hm (hleads.makeDir_ne_ok hc (by simp [← hrest]) hstart)
    obtain ⟨t, hl, -, -, rfl⟩ := makeDir_ok hm
    obtain ⟨hplace, -⟩ := hgone.steps_eq_nil h hx hrest.symm hstart
      (fun hmem => hdots (hpart.subset hmem)) hl
    rw [hplace]
    exact .inr .refl
  · obtain ⟨hroom, hholds⟩ := Begun.room h hgone hx hg (mem_singleton_self _)
    exact .inr (hg.trans (hroom.growsIn_makeDir hc hholds.plain hdots hnames hstart hm))

/-- Making directories on the way to a file begins a new directory at most. -/
theorem Begun.makeDirs {inner : List String} (hdots : ".." ∉ inner)
    (habove : names above <+: names dir ++ (name :: inner))
    (hstart : startOf cwd above = startOf cwd dir) : (fs.makeDirs cwd above).1.Closed ∧
    fs.Begun (fs.makeDirs cwd above).1 (d ++ [name]) (steps inner) := by
  have hstep (fs₁ fs₂ : Files) (p : String)
      (hp : names p <+: names dir ++ (name :: inner) ∧ startOf cwd p = startOf cwd dir)
      (hm : fs₁.makeDir cwd p = .ok fs₂)
      (hb : fs₁.Closed ∧ fs.Begun fs₁ (d ++ [name]) (steps inner)) :
      fs₂.Closed ∧ fs.Begun fs₂ (d ++ [name]) (steps inner) :=
    ⟨hb.1.makeDir hm, Begun.makeDir h hgone hx hdots hp.1 hp.2 hb.1 hb.2 hm⟩
  refine makeDirs_above hstep ⟨h.closed, .inl rfl⟩ fun p hp => ?_
  obtain ⟨hnames, hsame⟩ := names_of_mem_ancestors hp
  exact ⟨hnames.trans habove, hsame.trans hstart⟩

omit h hgone hx in
/-- Around a directory that is begun everything stays. -/
theorem Begun.outside {q : Place} (hb : fs.Begun fs₁ (d ++ [name]) path)
    (hq : ¬ d ++ [name] <+: q) : fs₁.get? q = fs.get? q := by
  rcases hb with rfl | hg
  · rfl
  rw [hg.outside fun hbelow => hq hbelow.1, sets_put fs _ (by simp), if_neg]
  rintro rfl
  exact hq (prefix_refl _)

omit h in
theorem Begun.ground (h : fs.Ground cwd dir d name id) (hc : fs₁.Closed)
    (hb : fs.Begun fs₁ (d ++ [name]) path) : fs₁.Ground cwd dir d name id := by
  refine h.of_alters hc (fun q => hb.outside) fun n hn => ?_
  rcases hb with rfl | hg
  · exact h.removable n hn
  obtain ⟨mode, hdir⟩ := (Begun.room h.toStead hgone hx hg (mem_singleton_self _)).1.isDir
  rw [hdir] at hn
  cases hn
  exact .inl rfl

end Begun

/-- On its ground stands a directory that holds known files. -/
structure Laid (fs : Files) (cwd : Place) (dir : String) (d : Place) (name : String) (id : Nat)
    (paths : List Place) (contents : Place → Option ByteArray) : Prop where
  ground : fs.Ground cwd dir d name id
  isDir : ∃ mode, fs.get? (d ++ [name]) = some (.dir mode)
  holds : fs.Holds (d ++ [name]) paths contents

/-- Once a file can be written, the directory has been made. -/
theorem Begun.laid_of_write {path : Place} (h : fs.Ground cwd dir d name id)
    (hgone : fs.Gone (d ++ [name])) (hx : Fits dir name) (hc : fs₁.Closed)
    (hb : fs.Begun fs₁ (d ++ [name]) path) (hpath : path ∈ paths) (hfile : Inward file)
    (hw : fs₁.write cwd (join (join dir name) file) bytes = .ok fs₂) :
    fs₁.Laid cwd dir d name id paths fun _ => none := by
  have hground := Begun.ground hgone hx h hc hb
  rcases hb with rfl | hg
  · obtain ⟨t, hl, -⟩ := edit_ok hw
    obtain ⟨-, hnil⟩ := hgone.steps_eq_nil h.toStead hx (names_inside hx.isName hfile.isRelative)
      (startOf_inside hx.isName hfile.isRelative) hfile.down hl
    exact absurd hnil hfile.some_step
  · obtain ⟨hroom, hholds⟩ := Begun.room h.toStead hgone hx hg hpath
    exact ⟨hground, hroom.isDir, hholds⟩

theorem Laid.write {contents : Place → Option ByteArray}
    (h : fs.Laid cwd dir d name id paths contents) (hx : Fits dir name) (hfile : Inward file)
    (hmem : steps (names file) ∈ paths)
    (hw : fs.write cwd (join (join dir name) file) bytes = .ok fs') :
    fs'.Laid cwd dir d name id paths (Function.update contents (steps (names file)) (some bytes))
    := by
  obtain ⟨mode, hdir⟩ := h.isDir
  obtain ⟨hne, i, mode', hsets⟩ := (h.ground.room hx h.isDir).write h.ground.closed h.holds.plain
    hfile.isRelative hfile.down hw
  have hdir' : fs'.get? (d ++ [name]) = some (.dir mode) := by
    rw [hsets, if_neg (by simpa using hne), hdir]
  refine ⟨h.ground.of_alters (h.ground.closed.edit hw) (fun q hq => ?_) fun n hn => ?_,
    ⟨mode, hdir'⟩, h.holds.of_sets hmem hne hsets⟩
  · rw [hsets, if_neg]
    rintro rfl
    exact hq (prefix_append _ _)
  · rw [hdir'] at hn
    cases hn
    exact .inl rfl

end Files

end Foundry
