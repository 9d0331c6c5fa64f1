import Foundry.Proofs.Files.Shelves

/-!
# Removing what a directory holds

A path that leads to a directory has come a way of directories and links. So removing what
stands in the directory by a name leaves the way as it is, unless what is removed is a link
that the way follows, and each thing that is removed is gone and nothing else is.
-/

namespace Foundry

open List

namespace Files

variable {fs fs' : Files} {way : List Place} {links links' : Nat} {cwd p d : Place}
  {l : List String}
  {dir path x : String} {asDir : Bool} {t : Target} {names : List String} {mode : Nat}

/-! ## The way to a directory -/

/-- Who has come to a directory has come a way there. -/
theorem Walks.exists_reaches_dir (h : fs.Walks true links asDir p l t)
    (hnode : t.node = some (.dir mode)) :
    ∃ way links', fs.Reaches links p l way links' t.place := by
  induction h with
  | here => exact ⟨_, _, .here _ _⟩
  | dot hname _ ih =>
    obtain ⟨way, links', hway⟩ := ih hnode
    exact ⟨way, links', .dot hname hway⟩
  | up hname _ ih =>
    obtain ⟨way, links', hway⟩ := ih hnode
    exact ⟨way, links', .up hname hway⟩
  | last hname _ => exact ⟨_, _, .down hname hnode (.here _ _)⟩
  | down hname _ hdir _ ih =>
    obtain ⟨way, links', hway⟩ := ih hnode
    exact ⟨_, links', .down hname hdir hway⟩
  | link hname hlink htarget _ _ ih =>
    obtain ⟨way, links', hway⟩ := ih hnode
    exact ⟨_, links', .link hname hlink htarget hway⟩

theorem leads_of_find (h : fs.find cwd true path = .ok (d, .dir mode)) :
    ∃ way links, fs.Leads cwd path way links d := by
  obtain ⟨t, hl, rfl, hnode⟩ := find_ok h
  obtain ⟨-, hstart⟩ := nameable_of_locate hl
  obtain ⟨way, links, hway⟩ := (walks_of_locate hl).exists_reaches_dir (locate_node hl ▸ hnode)
  exact ⟨way, links, hstart, hway⟩

theorem list_of_find (h : fs.find cwd true path = .ok (d, .dir mode)) :
    fs.list cwd path = .ok (fs.namesAt d) := by
  simp [list, h, Node.isDir, bind, Except.bind]

theorem find_of_list (h : fs.list cwd path = .ok names) :
    ∃ d mode, fs.find cwd true path = .ok (d, .dir mode) := by
  unfold list at h
  obtain ⟨⟨d, n⟩, hf, h⟩ := bind_eq_ok h
  cases n with
  | dir mode => exact ⟨d, mode, hf⟩
  | file | link | device | program => cases h

/-- A walk along the whole of a way ends at the directory it leads to. -/
theorem Reaches.walk_dir (h : fs.Reaches links p l way links' d)
    (hd : fs.get? d = some (.dir mode)) :
    ∃ asDir', fs.walk true links asDir p l = .ok ⟨d, some (.dir mode), asDir'⟩ := by
  induction h generalizing asDir with
  | here links p => exact ⟨asDir, by rw [walk_nil, hd]⟩
  | dot hname _ ih =>
    rw [hname, walk_dot]
    exact ih hd
  | up hname _ ih =>
    rw [hname, walk_up]
    exact ih hd
  | @down links links' p d name l way mode' hname hdir hrest ih =>
    by_cases hl : l = []
    · subst hl
      cases hrest
      exact ⟨asDir, by rw [walk_last hname (by rw [hdir]; rfl), hd]⟩
    · rw [walk_down hname hdir hl]
      exact ih hd
  | link hname hlink htarget _ ih =>
    rw [walk_link hname hlink htarget (by simp)]
    exact ih hd

theorem Leads.find_dir (h : fs.Leads cwd path way links d) (hpath : Nameable path)
    (hd : fs.get? d = some (.dir mode)) : fs.find cwd true path = .ok (d, .dir mode) := by
  have hlocate : ∃ asDir, fs.locate cwd true path = .ok ⟨d, some (.dir mode), asDir⟩ := by
    rw [locate_eq hpath h.start]
    exact h.reaches.walk_dir hd
  obtain ⟨asDir, hlocate⟩ := hlocate
  simp only [Files.find, hlocate, bind, Except.bind]

/-! ## Removing by name -/

/-- Something stands in a directory by a name, and is no link on the way to it. -/
structure Loose (fs : Files) (d : Place) (way : List Place) (x : String) : Prop where
  isName : Path.IsName x
  short : x.utf8ByteSize ≤ maxName
  stands : fs.get? (d ++ [x]) ≠ none
  aside : ∀ target, fs.get? (d ++ [x]) = some (.link target) → d ++ [x] ∉ way

theorem locate_of_not_nameable {follow : Bool} (h : ¬ Nameable path) (hne : path ≠ "") :
    ∃ e, e ≠ .notFound ∧ fs.locate cwd follow path = .error e := by
  unfold locate
  split
  · exact ⟨_, by decide, rfl⟩
  rename_i hsound
  rw [if_neg (by simpa using hne)]
  split
  · exact ⟨_, by decide, rfl⟩
  · exact absurd ⟨by simpa using hsound, by simpa using hne, by omega⟩ h

/-- What has a name in a directory is removed or refused: refused if its path is, or if it is a
directory itself. -/
theorem Leads.removeFile_name (h : fs.Leads cwd dir way links d) (hx : fs.Loose d way x) :
    (Nameable (Path.join dir x) ∧ (∀ mode, fs.get? (d ++ [x]) ≠ some (.dir mode)) ∧
    fs.removeFile cwd (Path.join dir x) = .ok (fs.erase (d ++ [x]))) ∨
    ¬ (Nameable (Path.join dir x) ∧ ∀ mode, fs.get? (d ++ [x]) ≠ some (.dir mode)) ∧
    ∃ e, e ≠ .notFound ∧ fs.removeFile cwd (Path.join dir x) = .error e := by
  by_cases hpath : Nameable (Path.join dir x)
  · have hl := h.locate_name ⟨hx.isName, hx.short, hpath⟩ false (by simp)
    cases hn : fs.get? (d ++ [x]) with
    | none => exact absurd hn hx.stands
    | some n =>
      cases hdir : n.isDir with
      | false =>
        refine .inl ⟨hpath, ?_, ?_⟩
        · rintro mode ⟨⟩
          cases hdir
        · simp [removeFile, Files.find, hl, hn, hdir, bind, Except.bind]
      | true =>
        refine .inr ⟨?_, .isDirectory, by decide, ?_⟩
        · rintro ⟨-, hnot⟩
          cases n with
          | dir mode => exact hnot mode rfl
          | file | link | device | program => cases hdir
        · simp [removeFile, Files.find, hl, hn, hdir, bind, Except.bind]
  · obtain ⟨e, hne, hl⟩ : ∃ e, e ≠ .notFound ∧ fs.locate cwd false (Path.join dir x) = .error e :=
      locate_of_not_nameable hpath (Path.join_ne_empty hx.isName)
    exact .inr ⟨fun hboth => hpath hboth.1, e, hne, by
      simp only [removeFile, Files.find, hl, bind, Except.bind]⟩

/-- A tree without the nodes at some places. -/
def eraseAll (fs : Files) (gone : List Place) : Files :=
  { fs with nodes := fs.nodes.filter fun e => e.1 ∉ gone }

theorem eraseAll_nil (fs : Files) : fs.eraseAll [] = fs := by
  simp [eraseAll]

theorem eraseAll_cons (fs : Files) (p : Place) (gone : List Place) :
    fs.eraseAll (p :: gone) = (fs.erase p).eraseAll gone := by
  simp [eraseAll, erase, filter_filter, Bool.and_comm]

theorem get?_eraseAll (fs : Files) {gone : List Place} {q : Place} (hq : q ∉ gone) :
    (fs.eraseAll gone).get? q = fs.get? q := by
  by_cases hroot : q = []
  · rw [hroot, get?_nil, get?_nil]
  rw [get?_of_ne _ hroot, get?_of_ne _ hroot, eraseAll,
    lookup_filter (fun place => decide (place ∉ gone))]
  simp [hq]

theorem namesAt_eraseAll (fs : Files) (gone : List Place) (p : Place) :
    (fs.eraseAll gone).namesAt p = (fs.namesAt p).filter fun x => p ++ [x] ∉ gone := by
  have hkeys : (fs.eraseAll gone).nodes.map Prod.fst = (fs.nodes.map Prod.fst).filter
      (· ∉ gone) := by
    rw [eraseAll, filter_map]
    rfl
  rw [namesAt_eq, namesAt_eq, hkeys, filterMap_filter, filter_filterMap]
  apply filterMap_congr
  intro q _
  cases hname : nameIn p q with
  | none => simp
  | some x =>
    rw [nameIn_eq_some.mp hname]
    by_cases hmem : p ++ [x] ∈ gone <;> simp [hmem, Option.filter]

/-- A tree in which things of these names are gone from a directory. -/
def without (fs : Files) (d : Place) (names : List String) : Files :=
  fs.eraseAll (names.map fun x => d ++ [x])

theorem get?_without_name (hx : x ∉ names) :
    (fs.without d names).get? (d ++ [x]) = fs.get? (d ++ [x]) := by
  apply get?_eraseAll
  simpa using hx

theorem Loose.without (h : fs.Loose d way x) (hx : x ∉ names) :
    (fs.without d names).Loose d way x := by
  refine ⟨h.isName, h.short, ?_, ?_⟩
  · rw [get?_without_name hx]
    exact h.stands
  rw [get?_without_name hx]
  exact h.aside

/-- The way to a directory stays when things in it are removed. -/
theorem Leads.without (h : fs.Leads cwd dir way links d)
    (hgone : ∀ x ∈ names, fs.Loose d way x ∧ ∀ mode, fs.get? (d ++ [x]) ≠ some (.dir mode)) :
    (fs.without d names).Leads cwd dir way links d := by
  apply h.of_change
  intro q hq
  apply get?_eraseAll
  intro hmem
  obtain ⟨x, hx, rfl⟩ := mem_map.mp hmem
  obtain ⟨hloose, hdir⟩ := hgone x hx
  rcases mem_cons.mp hq with hstart | hway
  · obtain ⟨mode, hmode⟩ := h.start
    exact hdir mode (hstart ▸ hmode)
  rcases h.reaches.dir_or_link _ hway with ⟨mode, hmode⟩ | ⟨target, hlink⟩
  · exact hdir mode hmode
  · exact hloose.aside target hlink hway

end Files

end Foundry
