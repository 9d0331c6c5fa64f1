import Foundry.Proofs.Files.Ways
import Mathlib.Data.List.Induction

/-!
# Trees that are trees

In a tree that was built up by operations, whatever stands somewhere stands in a
directory. Operations keep that. In such a tree a plain file is found exactly where
its path spells it, so finding a file no longer depends on the way to it.
-/

namespace Foundry

open List

/-- Files and directories. -/
def Node.isPlain : Node → Bool
  | .dir _ | .file .. => true
  | _ => false

namespace Files

variable {fs fs' : Files} {cwd : Place} {path : String} {p q : Place} {n : Node}
  {jump : String → Bool → Place → List String → Except Cause Target} {names : List String}
    {t : Target}
  {follow asDir : Bool} {at_ : Place} {mode : Nat} {f : ByteArray → ByteArray}

/-- Whatever stands somewhere stands in a directory. -/
def Closed (fs : Files) : Prop :=
  ∀ q name n, fs.get? (q ++ [name]) = some n → ∃ mode, fs.get? q = some (.dir mode)

/-- There is a directory for a place to stand in. -/
def HasParent (fs : Files) (p : Place) : Prop :=
  ∃ q name mode, p = q ++ [name] ∧ fs.get? q = some (.dir mode)

namespace Closed

variable (h : fs.Closed)
include h

theorem dir_of_isBelow (hn : fs.get? q = some n) (hp : IsBelow p q) :
    ∃ mode, fs.get? p = some (.dir mode) := by
  obtain ⟨⟨rest, rfl⟩, hne⟩ := hp
  induction rest using List.reverseRecOn generalizing n with
  | nil => simp at hne
  | append_singleton rest name ih =>
    rw [← append_assoc] at hn
    obtain ⟨mode, hdir⟩ := h _ _ _ hn
    by_cases hrest : rest = []
    · exact ⟨mode, by simpa [hrest] using hdir⟩
    · exact ih hdir (by simpa using hrest)

/-- Below what is no directory nothing is. -/
theorem get?_below (hp : ∀ mode, fs.get? p ≠ some (.dir mode)) (hq : IsBelow p q) :
    fs.get? q = none := by
  by_contra hsome
  obtain ⟨n, hn⟩ := Option.ne_none_iff_exists'.mp hsome
  obtain ⟨mode, hdir⟩ := h.dir_of_isBelow hn hq
  exact hp mode hdir

theorem get?_within (hp : fs.get? p = none) (hq : p <+: q) : fs.get? q = none := by
  by_cases heq : p = q
  · rw [← heq, hp]
  · exact h.get?_below (by simp [hp]) ⟨hq, heq⟩

/-- Above a directory there are only directories. -/
theorem unlinked (hp : fs.get? p = some (.dir mode)) : fs.Unlinked p := by
  intro q hq target hlink
  by_cases heq : q = p
  · rw [heq, hp] at hlink
    cases hlink
  obtain ⟨mode', hdir⟩ := h.dir_of_isBelow hp ⟨hq, heq⟩
  rw [hdir] at hlink
  cases hlink

/-! ## What operations keep -/

theorem eraseBelow (p : Place) : (fs.eraseBelow p).Closed := by
  intro q name n hn
  rw [get?_eraseBelow] at hn ⊢
  split at hn
  · cases hn
  rename_i hout
  have hq : ¬ IsBelow p q := by
    rintro ⟨hp, hne⟩
    refine hout ⟨hp.trans (prefix_append q [name]), ?_⟩
    rintro rfl
    have := hp.length_le
    simp only [length_append, length_singleton] at this
    omega
  rw [if_neg hq]
  exact h q name n hn

theorem erase (hp : ∀ name, fs.get? (p ++ [name]) = none) : (fs.erase p).Closed := by
  intro q name n hn
  rw [get?_erase] at hn ⊢
  split at hn
  · cases hn
  have hq : q ≠ p := by
    rintro rfl
    rw [hp name] at hn
    cases hn
  rw [if_neg fun hqp => hq hqp.1]
  exact h q name n hn

theorem removeTree (cwd : Place) (path : String) : (fs.removeTree cwd path).1.Closed := by
  unfold Files.removeTree
  split
  · exact h
  · rename_i p target hf
    obtain ⟨-, -, -, hn⟩ := find_ok hf
    exact h.erase fun name => h.get?_below (by simp [hn]) ⟨prefix_append p [name], by simp⟩
  · rename_i p mode _
    have hb := h.eraseBelow p
    dsimp only
    split
    · exact hb
    · exact hb
    refine hb.erase fun name => ?_
    rw [get?_eraseBelow, if_pos ⟨prefix_append p [name], by simp⟩]
  · exact h

theorem sets (hs : fs.Sets fs' p n) (hparent : fs.HasParent p)
    (hold : ∀ m, fs.get? p = some m → m.isDir = true → n.isDir = true) : fs'.Closed := by
  intro q name m hm
  rw [hs] at hm ⊢
  have hdir : ∃ mode, fs.get? q = some (.dir mode) := by
    split at hm
    · rename_i hq
      obtain ⟨q', name', mode, rfl, hdir⟩ := hparent
      obtain ⟨rfl, -⟩ := append_inj' hq rfl
      exact ⟨mode, hdir⟩
    · exact h q name m hm
  split
  · rename_i hq
    subst hq
    obtain ⟨mode, hdir⟩ := hdir
    have hn := hold _ hdir rfl
    cases n with
    | dir mode => exact ⟨mode, rfl⟩
    | _ => cases hn
  · exact hdir

theorem hasParent (hp : p ≠ []) (hn : fs.get? p = some n) : fs.HasParent p := by
  obtain ⟨q, name, rfl⟩ := (eq_nil_or_concat p).resolve_left hp
  rw [concat_eq_append] at hn ⊢
  obtain ⟨mode, hdir⟩ := h q name n hn
  exact ⟨q, name, mode, rfl, hdir⟩

theorem dropLast (hp : fs.get? p = some (.dir mode)) :
    ∃ mode, fs.get? p.dropLast = some (.dir mode) := by
  by_cases hne : p = []
  · exact ⟨mode, by simpa [hne] using hp⟩
  obtain ⟨q, name, mode, rfl, hdir⟩ := h.hasParent hne hp
  exact ⟨mode, by simpa using hdir⟩

theorem hasParent_walks {links : Nat} (hw : fs.Walks follow links asDir p names t)
    (hp : ∃ mode, fs.get? p = some (.dir mode)) (hnone : t.node = none) : fs.HasParent t.place := by
  induction hw with
  | here =>
    obtain ⟨mode, hdir⟩ := hp
    rw [hdir] at hnone
    cases hnone
  | dot _ _ ih => exact ih hp hnone
  | up _ _ ih => exact ih (h.dropLast hp.choose_spec) hnone
  | last =>
    obtain ⟨mode, hdir⟩ := hp
    exact ⟨_, _, mode, rfl, hdir⟩
  | down _ _ hdir _ ih => exact ih ⟨_, hdir⟩ hnone
  | link _ _ _ _ _ ih => exact ih (isDir_startOf hp) hnone

/-- A path that leads to nothing leads to a place in a directory. -/
theorem hasParent_locate (hl : fs.locate cwd follow path = .ok t)
    (hnone : t.node = none) : fs.HasParent t.place :=
  h.hasParent_walks (walks_of_locate hl) (nameable_of_locate hl).2 hnone

theorem makeDir (hm : fs.makeDir cwd path = .ok fs') : fs'.Closed := by
  obtain ⟨t, hl, habsent, hne, rfl⟩ := makeDir_ok hm
  have hparent := h.hasParent_locate hl ((locate_node hl).trans habsent)
  exact h.sets (sets_put fs _ hne) hparent fun _ _ _ => rfl

theorem makeDirs (cwd : Place) (path : String) : (fs.makeDirs cwd path).1.Closed :=
  makeDirs_preserves (fun _ _ _ hm hc => hc.makeDir hm) h path

theorem openForWriting (ho : fs.openForWriting cwd path = .ok (fs', p, n)) : fs'.Closed := by
  obtain ⟨t, ht, rfl, -, ⟨rfl, -⟩ | ⟨hnone, -, rfl, hs⟩⟩ := openForWriting_ok ho
  · exact h
  refine h.sets hs (h.hasParent_locate ht ((locate_node ht).trans hnone)) fun m hm _ => ?_
  rw [hnone] at hm
  cases hm

theorem edit (he : fs.edit cwd path f = .ok fs') : fs'.Closed := by
  obtain ⟨t, ht, ⟨id, bytes, mode, hs, hold⟩ | ⟨rfl, -⟩⟩ := edit_ok he
  · have hnotDir : ∀ m, fs.get? t.place = some m → m.isDir = true → False := by
      intro m hm hd
      rcases hold with hold | ⟨hold, -⟩
      · rw [hold] at hm
        cases hm
        cases hd
      · rw [hold] at hm
        cases hm
    refine h.sets hs ?_ fun m hm hd => (hnotDir m hm hd).elim
    rcases hold with hold | ⟨hold, -⟩
    · refine h.hasParent ?_ hold
      intro hroot
      exact hnotDir _ (hroot ▸ get?_nil fs) rfl
    · exact h.hasParent_locate ht ((locate_node ht).trans hold)
  · exact h

theorem editId (id : Nat) (f : ByteArray → ByteArray) : (fs.editId id f).Closed := by
  intro q name n hn
  rw [get?_editId] at hn ⊢
  obtain ⟨m, hm, -⟩ := Option.map_eq_some_iff.mp hn
  obtain ⟨mode, hdir⟩ := h q name m hm
  exact ⟨mode, by simp [hdir, editNode]⟩

end Closed

/-! ## Finding plain files -/

/-- At a place and above it stand only files and directories. -/
def Plain (fs : Files) (p : Place) : Prop :=
  ∀ q, q <+: p → ∀ n, fs.get? q = some n → n.isPlain = true

namespace Plain

variable (h : fs.Plain p)
include h

theorem unlinked : fs.Unlinked p := by
  intro q hq target hlink
  cases h q hq _ hlink

theorem of_change
    (hchange : ∀ q n, fs'.get? q = some n → fs.get? q = some n ∨ n.isPlain = true) :
    fs'.Plain p := by
  intro q hq n hn
  rcases hchange q n hn with hold | hplain
  · exact h q hq n hold
  · exact hplain

theorem of_covers (hc : fs.Covers fs') : fs'.Plain p :=
  h.of_change fun q n hn => .inl (hc q n hn)

theorem of_gainsDirs (hg : fs.GainsDirs fs') : fs'.Plain p := by
  refine h.of_change fun q n hn => ?_
  rcases hg.gained q n hn with hd | hold
  · cases n with
    | dir mode => exact .inr rfl
    | _ => cases hd
  · exact .inl hold

theorem of_sets (hs : fs.Sets fs' q n) (hn : n.isPlain = true) : fs'.Plain p := by
  refine h.of_change fun q' m hm => ?_
  rw [hs] at hm
  split at hm
  · cases hm
    exact .inr hn
  · exact .inl hm

theorem editId (id : Nat) (f : ByteArray → ByteArray) : (fs.editId id f).Plain p := by
  refine h.of_change fun q n hn => ?_
  rw [get?_editId] at hn
  obtain ⟨m, hm, rfl⟩ := Option.map_eq_some_iff.mp hn
  cases m with
  | file k bytes mode =>
    right
    by_cases hk : k = id <;> simp [editNode, hk, Node.isPlain]
  | _ => exact .inl hm

end Plain

/-- A file stands at a place. -/
def IsFileAt (fs : Files) (p : Place) : Prop := ∃ n, fs.get? p = some n ∧ n.isFile = true

theorem not_isFileAt_dir (h : ∃ mode, fs.get? p = some (.dir mode)) : ¬ fs.IsFileAt p := by
  rintro ⟨n, hn, hfile⟩
  obtain ⟨mode, hdir⟩ := h
  rw [hdir] at hn
  cases hn
  cases hfile

theorem IsFileAt.of_covers (hc : fs.Covers fs') (h : fs'.IsFileAt p) : fs.IsFileAt p := by
  obtain ⟨n, hn, hfile⟩ := h
  exact ⟨n, hc p n hn, hfile⟩

theorem isFileAt_of_gainsDirs (hg : fs.GainsDirs fs') : fs'.IsFileAt p ↔ fs.IsFileAt p := by
  constructor
  · rintro ⟨n, hn, hfile⟩
    rcases hg.gained p n hn with hd | hold
    · cases n <;> simp_all [Node.isDir, Node.isFile]
    · exact ⟨n, hold, hfile⟩
  · rintro ⟨n, hn, hfile⟩
    exact ⟨n, hg.kept p n hn, hfile⟩

theorem isFileAt_editId (fs : Files) (id : Nat) (f : ByteArray → ByteArray) (p : Place) :
    (fs.editId id f).IsFileAt p ↔ fs.IsFileAt p := by
  have hsame : ∀ n, (editNode id f n).isFile = n.isFile := by
    intro n
    cases n with
    | file k bytes mode => by_cases hk : k = id <;> simp [editNode, hk, Node.isFile]
    | _ => rfl
  simp [IsFileAt, get?_editId, hsame]

/-- A file stays a file when one is written, and no other place gets one. -/
theorem isFileAt_of_sets {id : Nat} {bytes : ByteArray} (hs : fs.Sets fs' q (.file id bytes mode)) :
    fs'.IsFileAt p ↔ p = q ∨ fs.IsFileAt p := by
  unfold IsFileAt
  rw [hs]
  by_cases hp : p = q
  · simp [hp, Node.isFile]
  · simp [hp]

/-- A walk that meets no link refuses long names, and a file where only a directory will do. -/
theorem Walks.unlinked {links : Nat} (h : fs.Walks follow links asDir p names t)
    (hdots : ".." ∉ names) (hu : fs.Unlinked (p ++ steps names)) (hat : ¬ fs.IsFileAt p) :
    (∀ name ∈ names, name ≠ "." → name.utf8ByteSize ≤ maxName) ∧ t.asDir = asDir ∧
    (fs.IsFileAt t.place → asDir = false) := by
  induction h with
  | here => exact ⟨by simp, rfl, fun hfile => absurd hfile hat⟩
  | dot hname _ ih =>
    rw [hname, steps_dot] at hu
    simpa [hname] using ih (not_mem_of_not_mem_cons hdots) hu hat
  | up hname => exact absurd (by simp [hname]) hdots
  | last hname hends =>
    refine ⟨by simp [hname.short], rfl, ?_⟩
    rintro ⟨n, hn, hfile⟩
    rw [hn] at hends
    cases n with
    | file | program => simpa [endsAt] using hends
    | dir | link | device => cases hfile
  | down hname _ hdir _ ih =>
    rw [append_steps hname.ne_dot] at hu
    have hnot : ¬ fs.IsFileAt _ := not_isFileAt_dir ⟨_, hdir⟩
    simpa [hname.short] using ih (not_mem_of_not_mem_cons hdots) hu hnot
  | link hname hlink =>
    rw [append_steps hname.ne_dot] at hu
    exact absurd hlink (hu.of_append _ (prefix_refl _) _)

theorem steps_ne_nil (hne : names ≠ []) (hlast : names.getLast? ≠ some ".") : steps names ≠ [] := by
  intro hnil
  have hmem := getLast_mem hne
  have hdot : names.getLast hne = "." := by
    by_contra hreal
    have : names.getLast hne ∈ steps names := mem_filter.mpr ⟨hmem, by simpa using hreal⟩
    rw [hnil] at this
    cases this
  exact hlast (by rw [List.getLast?_eq_some_getLast hne, hdot])

/-- A file is found by walking along the names of its place. -/
theorem Closed.walk_file (h : fs.Closed) {links : Nat} (hdots : ".." ∉ names)
    (hlast : names.getLast? ≠ some ".")
    (hsizes : ∀ name ∈ names, name ≠ "." → name.utf8ByteSize ≤ maxName)
    (hn : fs.get? (p ++ steps names) = some n) (hfile : n.isFile = true) :
    fs.walk follow links false p names = .ok ⟨p ++ steps names, some n, false⟩ := by
  induction names generalizing p with
  | nil => simpa [steps, walk_nil] using hn
  | cons name rest ih =>
    have hrest : ".." ∉ rest := not_mem_of_not_mem_cons hdots
    have hlater : rest.getLast? ≠ some "." := by
      intro hdot
      exact hlast (by simp [List.getLast?_cons, hdot])
    have hshorter : ∀ name ∈ rest, name ≠ "." → name.utf8ByteSize ≤ maxName :=
      fun name hmem => hsizes name (by simp [hmem])
    by_cases hdot : name = "."
    · rw [hdot, steps_dot] at hn ⊢
      rw [walk_dot]
      exact ih hrest hlater hshorter hn
    · have hname : IsStep name :=
        ⟨hdot, fun hup => hdots (by simp [hup]), hsizes name (by simp) hdot⟩
      rw [append_steps hdot] at hn ⊢
      by_cases hend : rest = []
      · subst hend
        rw [steps, filter_nil, append_nil] at hn ⊢
        rw [← hn]
        refine walk_last hname ?_
        rw [hn]
        cases n with
        | file | program => rfl
        | _ => cases hfile
      · have hbelow : IsBelow (p ++ [name]) (p ++ [name] ++ steps rest) :=
          ⟨prefix_append _ _, by simpa using steps_ne_nil hend hlater⟩
        obtain ⟨mode, hdir⟩ := h.dir_of_isBelow hn hbelow
        rw [walk_down hname hdir hend]
        exact ih hrest hlater hshorter hn

/-- Paths that looking up a file does not refuse for their text. -/
structure Usable (path : String) : Prop where
  sound : path.toList.contains '\x00' = false
  nonempty : path.isEmpty = false
  short : path.utf8ByteSize ≤ maxPath
  asFile : path.endsWith "/" = false
  names : ∀ name ∈ Path.names path, name ≠ "." → name.utf8ByteSize ≤ maxName

/-- A path that leads somewhere is usable, if it does not ask for a directory. -/
theorem usable_of_locate (hdots : ".." ∉ Path.names path) (hp : fs.Plain (placeOf cwd path))
    (h : fs.locate cwd follow path = .ok t) (hfile : fs.IsFileAt t.place ∨ t.asDir = false) :
    Usable path := by
  obtain ⟨hpath, hdir⟩ := nameable_of_locate h
  obtain ⟨hsizes, hsame, hopen⟩ := (walks_of_locate h).unlinked hdots hp.unlinked
    (not_isFileAt_dir hdir)
  refine ⟨hpath.sound, hpath.nonempty, hpath.short, ?_, hsizes⟩
  rcases hfile with hfile | hfile
  · exact hopen hfile
  · exact hsame.symm.trans hfile

variable {name : String}

/-- In a tree that is a tree, the file at the place of a usable path is found by that path. -/
theorem isFile_iff (hc : fs.Closed) (hdots : ".." ∉ Path.names path)
    (hlast : (Path.names path).getLast? = some name) (hname : name ≠ ".")
    (hp : fs.Plain (placeOf cwd path)) :
    fs.isFile cwd path = true ↔ Usable path ∧ fs.IsFileAt (placeOf cwd path) := by
  constructor
  · intro h
    unfold isFile at h
    split at h
    · rename_i p n hf
      obtain ⟨rfl, hn⟩ := find_place hdots hp.unlinked hf
      obtain ⟨t, ht, hplace, -⟩ := find_ok hf
      have hat : fs.IsFileAt (placeOf cwd path) := ⟨n, hn, h⟩
      exact ⟨usable_of_locate hdots hp ht (.inl (hplace ▸ hat)), hat⟩
    · cases h
  · rintro ⟨hu, n, hn, hfile⟩
    have hend : (Path.names path).getLast? ≠ some "." := by simpa [hlast] using hname
    have hsome : Path.names path ≠ [] := by
      intro hnil
      simp [hnil] at hlast
    have hstart : ∃ mode, fs.get? (startOf cwd path) = some (.dir mode) :=
      hc.dir_of_isBelow hn ⟨prefix_append _ _, by simpa [placeOf] using steps_ne_nil hsome hend⟩
    have hlocate : fs.locate cwd true path = .ok ⟨placeOf cwd path, some n, false⟩ := by
      rw [locate_eq ⟨hu.sound, hu.nonempty, hu.short⟩ hstart, hu.asFile]
      exact hc.walk_file hdots hend hu.names hn hfile
    simp [isFile, find, hlocate, bind, Except.bind, hfile]

/-- What has been written to is found as a file. -/
theorem isFile_edit (hc : fs.Closed) (hdots : ".." ∉ Path.names path)
    (hlast : (Path.names path).getLast? = some name) (hname : name ≠ ".")
    (hp : fs.Plain (placeOf cwd path)) (he : fs.edit cwd path f = .ok fs') :
    fs'.isFile cwd path = true := by
  obtain ⟨t, ht, ⟨id, bytes, mode, hs, hold⟩ | ⟨-, d, hdevice⟩⟩ := edit_ok he
  · have hplace := locate_place hdots hp.unlinked ht
    have hat : fs'.IsFileAt (placeOf cwd path) := by
      refine ⟨.file id (f bytes) mode, ?_, rfl⟩
      rw [hs, if_pos hplace.symm]
    refine (isFile_iff (hc.edit he) hdots hlast hname (hp.of_sets hs rfl)).mpr ⟨?_, hat⟩
    refine usable_of_locate hdots hp ht ?_
    rcases hold with hold | ⟨-, hopen, -⟩
    · exact .inl ⟨_, hold, rfl⟩
    · exact .inr hopen
  · have hplace := locate_place hdots hp.unlinked ht
    cases hp _ (hplace ▸ prefix_refl _) _ hdevice

end Files

end Foundry
