import Foundry.Proofs.Files.Nodes

/-!
# What is written is read

A path that leads to a plain file, or to a free place, leads there again after a text has
been written to it or the file has been removed, whatever links and steps upwards it goes
through. So the text is what is read from it.
-/

namespace Foundry

namespace Files

variable {follow : Bool} {p : Place}
variable {fs fs' : Files} {cwd : Place} {path : String} {t : Target} {id mode : Nat}
  {bytes : ByteArray}

/-- What no walk goes through: neither a directory nor a link. -/
def Ends (fs : Files) (p : Place) : Prop :=
  ∀ n, fs.get? p = some n → n.isDir = false ∧ n.isLink = false

/-- A place holds something else, and elsewhere directories and links are what they were. -/
structure Shifts (fs fs' : Files) (p : Place) (new : Option Node) : Prop where
  place : fs'.get? p = new
  dirs : ∀ q mode, q ≠ p → fs.get? q = some (.dir mode) → ∃ mode, fs'.get? q = some (.dir mode)
  links : ∀ q target, q ≠ p → fs.get? q = some (.link target) → fs'.get? q = some (.link target)

theorem shifts_of_same {new : Option Node}
    (h : ∀ q, fs'.get? q = if q = p then new else fs.get? q) : fs.Shifts fs' p new := by
  refine ⟨by rw [h, if_pos rfl], fun q mode hq hdir => ⟨mode, ?_⟩, fun q target hq hlink => ?_⟩
  · rw [h, if_neg hq, hdir]
  · rw [h, if_neg hq, hlink]

section Change

variable {new : Option Node} (hs : fs.Shifts fs' t.place new)
  (hnew : ∀ n, new = some n → n.isDir = false ∧ n.isLink = false) (hends : fs.Ends t.place)
  (hdir : new ≠ none → t.asDir = false)
include hs hnew hends hdir

theorem Walks.change {asDir : Bool} {links : Nat} {names : List String}
    (h : fs.Walks follow links asDir p names t) :
    fs'.Walks follow links asDir p names { t with node := new } := by
  induction h with
  | here links asDir p =>
    have hhere : fs'.Walks follow links asDir p [] ⟨p, fs'.get? p, asDir⟩ := .here links asDir p
    rwa [hs.place] at hhere
  | dot hname _ ih => exact .dot hname (ih hs hends hdir)
  | up hname _ ih => exact .up hname (ih hs hends hdir)
  | @last links asDir p name hname _ =>
    have hlast : endsAt follow asDir (fs'.get? (p ++ [name])) = true := by
      rw [hs.place]
      cases new with
      | none => rfl
      | some n =>
        obtain ⟨hndir, hnlink⟩ := hnew n rfl
        obtain rfl : asDir = false := hdir (by simp)
        cases n with
        | dir => cases hndir
        | link => cases hnlink
        | file | device | program => rfl
    have hwalks : fs'.Walks follow links asDir p [name] _ := .last hname hlast
    rwa [hs.place] at hwalks
  | @down links asDir p name l t mode hname hmore hnode _ ih =>
    -- Directories and links on the way are not the end of it.
    have hne : p ++ [name] ≠ t.place := fun heq => by cases (hends _ (heq ▸ hnode)).1
    obtain ⟨mode, hnode⟩ := hs.dirs _ _ hne hnode
    exact .down hname hmore hnode (ih hs hends hdir)
  | @link links asDir p name target l t hname hnode htarget hfollow _ ih =>
    have hne : p ++ [name] ≠ t.place := fun heq => by cases (hends _ (heq ▸ hnode)).2
    exact .link hname (hs.links _ _ hne hnode) htarget hfollow (ih hs hends hdir)

theorem locate_change (h : fs.locate cwd follow path = .ok t) :
    fs'.locate cwd follow path = .ok { t with node := new } := by
  obtain ⟨hpath, mode, hstart⟩ := nameable_of_locate h
  have hne : startOf cwd path ≠ t.place := by
    intro heq
    cases (hends _ (heq ▸ hstart)).1
  rw [locate_eq hpath (hs.dirs _ _ hne hstart)]
  exact walk_of_walks ((walks_of_locate h).change hs hnew hends hdir)

end Change

/-- Where a path leads to a plain file, it leads to a free place once the file is removed. -/
theorem find_erase (h : fs.find cwd follow path = .ok (p, .file id bytes mode)) :
    (fs.erase p).find cwd follow path = .error .notFound := by
  obtain ⟨t, hl, rfl, hfile⟩ := find_ok h
  have hroot : t.place ≠ [] := ne_nil_of_get? hfile (by simp)
  have hends : fs.Ends t.place := by
    intro n hn
    rw [hfile] at hn
    cases hn
    exact ⟨rfl, rfl⟩
  have hl' := locate_change (shifts_of_same (get?_erase_of_ne fs hroot)) (fun n hn => by cases hn)
    hends (fun hne => absurd rfl hne) hl
  simp only [find, hl', bind, Except.bind]

/-- A path to which a text can be written and where it stays: it leads to a plain file or to a
free place. -/
def Retains (fs : Files) (cwd : Place) (path : String) : Prop :=
  ∃ t, fs.locate cwd true path = .ok t ∧ t.asDir = false ∧
    (t.node = none ∨ ∃ id bytes mode, t.node = some (.file id bytes mode))

theorem retains_of_free
    (h : (fs.locate cwd true path).toOption.map (fun t => (t.node.isNone, t.asDir)) =
    some (true, false)) : fs.Retains cwd path := by
  cases ht : fs.locate cwd true path with
  | error e => simp [ht, Except.toOption] at h
  | ok t =>
    simp only [ht, Except.toOption, Option.map_some, Option.some.injEq, Prod.mk.injEq,
      Option.isNone_iff_eq_none] at h
    exact ⟨t, ht, h.2, .inl h.1⟩

/-- What a path that leads to a plain file or to a free place is edited to is put there. -/
theorem exists_sets (ht : fs.locate cwd true path = .ok t) (hdir : t.asDir = false)
    (hnode : t.node = none ∨ ∃ id bytes mode, t.node = some (.file id bytes mode))
    (f : ByteArray → ByteArray) : ∃ fs' id mode, fs.edit cwd path f = .ok fs' ∧
    fs.Sets fs' t.place (.file id (f ((fs.read cwd path).toOption.getD .empty)) mode) := by
  obtain ⟨fs', hedit⟩ : ∃ fs', fs.edit cwd path f = .ok fs' := by
    rcases hnode with hnone | ⟨id, old, mode, hfile⟩
    · simp [edit, openForWriting, ht, hnone, hdir, bind, Except.bind]
    · simp [edit, openForWriting, ht, hfile, bind, Except.bind]
  obtain ⟨t', ht', hcase⟩ := edit_ok hedit
  cases ht.symm.trans ht'
  rw [locate_node ht] at hnode
  rcases hcase with ⟨id, old, mode, hs, hold⟩ | ⟨-, d, hdevice⟩
  · have hread : (fs.read cwd path).toOption.getD .empty = old := by
      rcases hold with hold | ⟨hnone, -, -, rfl⟩
      · simp [read, find, ht, locate_node ht, hold, bind, Except.bind, Except.toOption]
      · simp [read, find, ht, locate_node ht, hnone, bind, Except.bind, Except.toOption]
    exact ⟨fs', id, mode, hedit, hread ▸ hs⟩
  · simp [hdevice] at hnode

/-- What a path that retains it is edited to is read from there, also when directories are made
later. -/
theorem Retains.exists_edit (h : fs.Retains cwd path) (f : ByteArray → ByteArray) :
    ∃ fs', fs.edit cwd path f = .ok fs' ∧ ∀ fs'', fs'.GainsDirs fs'' →
    fs''.read cwd path = .ok (f ((fs.read cwd path).toOption.getD .empty)) ∧ fs''.exists? cwd path =
    true := by
  obtain ⟨t, ht, hdir, hnode⟩ := h
  have hends : fs.Ends t.place := by
    rintro n hn
    rw [locate_node ht, hn] at hnode
    rcases hnode with hnone | ⟨id, old, mode, hfile⟩
    · cases hnone
    cases hfile
    exact ⟨rfl, rfl⟩
  obtain ⟨fs', id, mode, hedit, hs⟩ := exists_sets ht hdir hnode f
  generalize f _ = new at *
  refine ⟨fs', hedit, fun fs'' hg => ?_⟩
  have hshifts : fs.Shifts fs'' t.place (some (.file id new mode)) := by
    refine ⟨hg.kept _ _ (by rw [hs, if_pos rfl]), fun q mode hq hn => ⟨mode, ?_⟩,
      fun q target hq hn => ?_⟩ <;> exact hg.kept _ _ (by rw [hs, if_neg hq, hn])
  have hfound := locate_change hshifts (by rintro n ⟨⟩; exact ⟨rfl, rfl⟩) hends (fun _ => hdir) ht
  have hfind : fs''.find cwd true path = .ok (t.place, .file id new mode) := by
    simp [find, hfound, bind, Except.bind]
  refine ⟨?_, ?_⟩
  · simp [read, hfind, bind, Except.bind]
  · simp [exists?, hfind]

/-- What is written to a path that retains it is read from there. -/
theorem Retains.exists_write (h : fs.Retains cwd path) (bytes : ByteArray) :
    ∃ fs', fs.write cwd path bytes = .ok fs' ∧ fs'.read cwd path = .ok bytes ∧
    fs'.exists? cwd path = true := by
  obtain ⟨fs', hedit, hread⟩ := h.exists_edit fun _ => bytes
  exact ⟨fs', hedit, hread fs' (.refl fs')⟩

/-- A path that can be written: the directories above it are there or can be made, and with
them it leads to a plain file or to a free place. -/
def Writable (fs : Files) (cwd : Place) (path : String) : Prop :=
  ∃ dir, Path.parent? path = some dir ∧ (fs.makeDirs cwd dir).2 = .ok () ∧
    (fs.makeDirs cwd dir).1.Retains cwd path

end Files

end Foundry
