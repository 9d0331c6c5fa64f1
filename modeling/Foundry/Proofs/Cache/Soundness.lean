import Foundry.Proofs.Cache.Conduct
import Foundry.Proofs.Files.Ways
import Foundry.Proofs.Interleaving

/-!
# The cache never serves a wrong output

Requests and clearings share one cache directory and interleave call by call. As long
as nobody else puts files into that directory, every file in it is at all times a
whole entry whose output is right for the entry's source. So whatever is served is
right, even when several sources are filed under one name.
-/

namespace Foundry

open List Path Files

namespace Service

variable {n : Node} {hash : String} {c : Call}
variable {s : Service} {stdoutOf : String → ByteArray} {fs fs' : Files} {dir : Place} {a b : String}

/-! ## The directory -/

/-- What may stand in the cache directory: directories, and whole and right entries. -/
def IsFine (s : Service) (stdoutOf : String → ByteArray) (n : Node) : Prop :=
  n.isDir = true ∨ ∃ id bytes mode, n = .file id bytes mode ∧ s.IsEntryText stdoutOf bytes

theorem IsFine.not_link (h : s.IsFine stdoutOf n) (target : String) : n ≠ .link target := by
  rintro rfl
  rcases h with h | ⟨_, _, _, h, _⟩
  · cases h
  · cases h

/-- No link leads to the directory, and all in it is fine. -/
structure Holds (s : Service) (stdoutOf : String → ByteArray) (dir : Place) (fs : Files) :
    Prop where
  unlinked : fs.Unlinked dir
  fine : ∀ name n, fs.get? (dir ++ [name]) = some n → s.IsFine stdoutOf n

theorem Holds.unlinked_child (h : s.Holds stdoutOf dir fs) (name : String) :
    fs.Unlinked (dir ++ [name]) := by
  intro q hq target hlink
  rcases prefix_concat_iff.mp hq with rfl | hq
  · exact (h.fine name _ hlink).not_link target rfl
  · exact h.unlinked q hq target hlink

/-- What a change may put at a place. -/
def Admits (s : Service) (stdoutOf : String → ByteArray) (dir : Place) (q : Place) (n : Node) :
    Prop :=
  (q <+: dir → n.isLink = false) ∧ ∀ name, q = dir ++ [name] → s.IsFine stdoutOf n

namespace Holds

variable (h : s.Holds stdoutOf dir fs)
include h

/-- A change that adds only admissible nodes leaves the directory as it should be. -/
theorem of_change (hchange : ∀ q n, fs'.get? q = some n →
    fs.get? q = some n ∨ s.Admits stdoutOf dir q n ∨ ∃ old, fs.get? q = some old ∧
    Files.SameButMode old n) : s.Holds stdoutOf dir fs' := by
  constructor
  · intro q hq target hlink
    rcases hchange q _ hlink with hold | hadmits | ⟨old, -, hsame⟩
    · exact h.unlinked q hq target hold
    · cases hadmits.1 hq
    · cases hsame
  · intro name n hn
    rcases hchange _ n hn with hold | hadmits | ⟨old, hold, hsame⟩
    · exact h.fine name n hold
    · exact hadmits.2 name rfl
    rcases h.fine name old hold with hd | ⟨id, bytes, mode, rfl, htext⟩
    · cases hsame with
      | dir mode mode' => exact .inl rfl
      | file id bytes mode mode' => cases hd
    · cases hsame with
      | file _ _ _ mode' => exact .inr ⟨id, bytes, mode', rfl, htext⟩

theorem of_covers (hc : fs.Covers fs') : s.Holds stdoutOf dir fs' :=
  h.of_change fun q n hn => .inl (hc q n hn)

theorem of_gainsDirs (hg : fs.GainsDirs fs') : s.Holds stdoutOf dir fs' := by
  refine h.of_change fun q n hn => ?_
  rcases hg.gained q n hn with hd | hold
  · refine .inr (.inl ⟨fun _ => ?_, fun _ _ => .inl hd⟩)
    cases n <;> simp_all [Node.isDir, Node.isLink]
  · exact .inl hold

theorem of_sets {p : Place} (hs : fs.Sets fs' p n)
    (hn : s.Admits stdoutOf dir p n) : s.Holds stdoutOf dir fs' := by
  refine h.of_change fun q n' hn' => ?_
  rw [hs q] at hn'
  split at hn'
  · rename_i hq
    cases hn'
    rw [hq]
    exact .inr (.inl hn)
  · exact .inl hn'

/-- Moving a file from one name of the directory to another. -/
theorem of_move (hab : a ≠ b) : s.Holds stdoutOf dir (fs.move (dir ++ [a]) (dir ++ [b])) := by
  have hnot : ∀ x y : String, x ≠ y → ¬ (dir ++ [x]) <+: (dir ++ [y]) := by
    intro x y hxy hp
    have := hp.eq_of_length (by simp)
    simp at this
    exact hxy this
  refine h.of_change fun q n hn => ?_
  rw [get?_move (hnot a b hab) (hnot b a hab.symm)] at hn
  split at hn
  · rename_i hq
    obtain ⟨rest, rfl⟩ := hq
    refine .inr (.inl ⟨fun hp => ?_, fun name hname => ?_⟩)
    · have := hp.length_le
      simp at this
    have hrest : rest = [] := by
      have := congrArg List.length hname
      simpa using this
    subst hrest
    simp at hn
    exact h.fine a n hn
  · split at hn
    · cases hn
    · exact .inl hn

end Holds

/-! ## Names of the cache -/

theorem isName_of_suffix {text : String} (stem tail : List Char)
    (htext : text.toList = stem ++ tail)
    (hstem : '/' ∉ stem) (htail : '/' ∉ tail) (hlong : 2 < tail.length) : IsName text := by
  have hlength : 2 < text.toList.length := by
    rw [htext, length_append]
    omega
  refine ⟨?_, ?_, ?_, ?_⟩
  · rintro rfl
    simp at hlength
  · rintro rfl
    simp at hlength
  · rintro rfl
    simp at hlength
  rw [htext, mem_append, not_or]
  exact ⟨hstem, htail⟩

theorem isName_entry (h : IsStem hash) : IsName (hash ++ "." ++ Cache.extension) := by
  refine isName_of_suffix hash.toList ".json".toList ?_ h (by decide) (by decide)
  simp [Cache.extension]

theorem isName_draft {id : String} (h : IsStem hash) (hid : IsStem id) :
    IsName ("." ++ hash ++ "." ++ id ++ ".tmp") := by
  refine isName_of_suffix ("." ++ hash ++ "." ++ id).toList ".tmp".toList (by simp) ?_ (by decide)
    (by decide)
  simp only [String.toList_append, mem_append, not_or]
  exact ⟨⟨⟨by decide, h⟩, by decide⟩, hid⟩

/-! ## Calls -/

variable {m m' : Machine} {cwd : Place} {r : c.Reply}

/-- The place of the cache directory. -/
def cachePlace (s : Service) (cwd : Place) : Place := Files.placeOf cwd s.cache.dir

/-- The machine has the directory as it should be. -/
structure Sound (s : Service) (stdoutOf : String → ByteArray) (cwd : Place) (m : Machine) :
    Prop where
  cwd_eq : m.cwd = cwd
  holds : s.Holds stdoutOf (s.cachePlace cwd) m.files

/-- Writing to a path would put something right into a directory. -/
def LandsIn (dir : Place) (m : Machine) (path : String) : Prop :=
  ∃ t name, m.files.locate m.cwd true path = .ok t ∧ t.place = dir ++ [name]

/-- Files of workspaces and lines of the audit trail do not get into the cache directory. -/
def KeepsOut (s : Service) (cwd : Place) (m : Machine) : Call → Prop
  | .writeFile path _ => s.IsWorkspaceFile path → ¬ LandsIn (s.cachePlace cwd) m path
  | .appendFile path _ => ¬ LandsIn (s.cachePlace cwd) m path
  | _ => True

/-- A path of the cache leads to its name in the directory. -/
theorem Holds.locate {name : String} (h : s.Holds stdoutOf (s.cachePlace cwd) fs)
    (hdots : ".." ∉ names s.cache.dir) (hname : IsName name) {follow : Bool}
    {t : Files.Target} (ht : fs.locate cwd follow (join s.cache.dir name) = .ok t) :
    t.place = s.cachePlace cwd ++ [name] := by
  have hplace : placeOf cwd (join s.cache.dir name) = s.cachePlace cwd ++ [name] :=
    placeOf_join_name hname
  rw [← hplace]
  refine locate_place ?_ (hplace ▸ h.unlinked_child name) ht
  rw [names_join (isAbsolute_of_isName hname), names_of_isName hname]
  simp [hdots, hname.ne_dots.symm]

/-- A written file is admissible: it is an entry, or is not in the directory. -/
theorem Holds.of_edit (h : s.Holds stdoutOf dir fs) {path : String}
    {f : ByteArray → ByteArray} (he : fs.edit cwd path f = .ok fs')
    (hfine : ∀ t bytes, fs.locate cwd true path = .ok t → (∃ name, t.place = dir ++ [name]) →
    s.IsEntryText stdoutOf (f bytes)) : s.Holds stdoutOf dir fs' := by
  obtain ⟨t, ht, ⟨id, bytes, mode, hset, -⟩ | ⟨rfl, -⟩⟩ := edit_ok he
  · refine h.of_sets hset ⟨fun _ => rfl, fun name hname => ?_⟩
    exact .inr ⟨id, _, mode, rfl, hfine t bytes ht ⟨name, hname⟩⟩
  · exact h

theorem Holds.of_rename (h : s.Holds stdoutOf (s.cachePlace cwd) fs)
    (hdots : ".." ∉ names s.cache.dir) (ha : IsName a) (hb : IsName b)
    (hr : fs.rename cwd (join s.cache.dir a) (join s.cache.dir b) = .ok fs') :
    s.Holds stdoutOf (s.cachePlace cwd) fs' := by
  obtain ⟨p, n, t, hfind, htarget, hcase⟩ := rename_ok hr
  obtain ⟨u, hu, rfl, -⟩ := find_ok hfind
  have hsource := h.locate hdots ha hu
  have hplace := h.locate hdots hb htarget
  rcases hcase with rfl | ⟨hne, rfl⟩
  · exact h
  rw [hsource, hplace] at hne ⊢
  refine h.of_move fun hab => hne ?_
  rw [hab]

theorem Sound.withFiles (h : s.Sound stdoutOf cwd m)
    (hf : s.Holds stdoutOf (s.cachePlace cwd) fs) : s.Sound stdoutOf cwd (m.withFiles fs) :=
  ⟨h.cwd_eq, hf⟩

theorem Sound.changing (h : s.Sound stdoutOf cwd m) {f : Files → Place → Except Cause Files}
    (hf : ∀ fs', f m.files cwd = .ok fs' → s.Holds stdoutOf (s.cachePlace cwd) fs') :
    s.Sound stdoutOf cwd (m.changing f).1 := by
  unfold Machine.changing
  split
  · rename_i files hok
    rw [h.cwd_eq] at hok
    exact h.withFiles (hf files hok)
  · exact h

/-- A call that is answered at once leaves the directory as it should be. -/
theorem Sound.answered (h : s.Sound stdoutOf cwd m) (hdots : ".." ∉ names s.cache.dir)
    (hmay : s.mayCall stdoutOf c) (hout : s.KeepsOut cwd m c) (ha : m.answer? c = some (m', r)) :
    s.Sound stdoutOf cwd m' := by
  have hchanged : ∀ {x : Machine × c.Reply}, some x = some (m', r) → s.Sound stdoutOf cwd x.1 →
      s.Sound stdoutOf cwd m' := by
    intro x hx hsound
    cases hx
    exact hsound
  cases c with
  | writeFile path bytes =>
    refine hchanged ha (h.changing fun fs' hw => h.holds.of_edit hw fun t _ ht hin => ?_)
    rcases hmay with hworkspace | ⟨hash, id, -, -, -, htext⟩
    · obtain ⟨name, hname⟩ := hin
      exact absurd ⟨t, name, h.cwd_eq ▸ ht, hname⟩ (hout hworkspace)
    · exact htext
  | appendFile path bytes =>
    refine hchanged ha (h.changing fun fs' hw => h.holds.of_edit hw fun t _ ht hin => ?_)
    obtain ⟨name, hname⟩ := hin
    exact absurd ⟨t, name, h.cwd_eq ▸ ht, hname⟩ hout
  | makeDir path =>
    exact hchanged ha (h.changing fun fs' hd => h.holds.of_gainsDirs (gainsDirs_makeDir hd))
  | makeDirs path =>
    exact hchanged ha (h.withFiles (h.holds.of_gainsDirs (gainsDirs_makeDirs _ _ _)))
  | removeFile path =>
    exact hchanged ha (h.changing fun fs' hd => h.holds.of_covers (covers_removeFile hd))
  | removeTree path =>
    exact hchanged ha (h.withFiles (h.holds.of_covers (covers_removeTree _ _ _)))
  | rename source target =>
    obtain ⟨hash, id, hstem, hid, rfl, rfl⟩ := hmay
    exact hchanged ha (h.changing fun fs' hr =>
      h.holds.of_rename hdots (isName_draft hstem hid) (isName_entry hstem) hr)
  | restrict path =>
    refine hchanged ha (h.changing fun fs' hm => h.holds.of_change fun q n hn => ?_)
    rcases setMode_ok hm q with heq | ⟨old, n', hold, hnew, hsame⟩
    · exact .inl (heq ▸ hn)
    rw [hnew] at hn
    cases hn
    exact .inr (.inr ⟨old, hold, hsame⟩)
  | sweep pattern =>
    exact hchanged ha (h.withFiles (h.holds.of_covers (covers_sweep _ _ _)))
  | openLock path => exact hmay.elim
  | markLock handle bytes => exact hmay.elim
  | lock handle wait => cases ha
  | run command timeout => cases ha
  | awaitJob job deadline => cases ha
  | awaitInterrupt => cases ha
  | _ => exact hchanged ha ⟨h.cwd_eq, h.holds⟩

theorem slash_notMem_toDigitsCore (fuel n : Nat) {digits : List Char} (h : '/' ∉ digits) :
    '/' ∉ Nat.toDigitsCore 16 fuel n digits := by
  have hdigit : ∀ d, d < 16 → '/' ≠ Nat.digitChar d := by decide
  induction fuel generalizing n digits with
  | zero => exact h
  | succ fuel ih =>
    have hmore : '/' ∉ Nat.digitChar (n % 16) :: digits := by
      rw [mem_cons, not_or]
      exact ⟨hdigit _ (Nat.mod_lt n (by decide)), h⟩
    unfold Nat.toDigitsCore
    dsimp only
    split
    · exact hmore
    · exact ih _ hmore

/-- Fresh identifiers can be part of file names. -/
theorem isStem_freshId (k : Kernel) : IsStem k.freshId.1 := by
  have hdigits : ∀ n, '/' ∉ Nat.toDigits 16 n := fun n =>
    slash_notMem_toDigitsCore (n + 1) n (by simp)
  unfold IsStem Kernel.freshId
  simp only [String.toList_ofList, mem_append, not_or]
  exact ⟨fun hmem => absurd (eq_of_mem_replicate hmem) (by decide), hdigits _⟩

/-- What a call that is answered at once brings is what a task reckons with. -/
theorem Sound.heard (h : s.Sound stdoutOf cwd m) (hdots : ".." ∉ names s.cache.dir)
    (source : String) (ha : m.answer? c = some (m', r)) : s.mayHear stdoutOf source c r := by
  cases c with
  | readFile path =>
    rintro hash bytes hstem rfl rfl
    have hread : m.files.read m.cwd (s.cache.entryPath hash) = .ok bytes :=
      congrArg Prod.snd (Option.some.inj ha)
    rw [h.cwd_eq, Files.read] at hread
    cases hf : m.files.find cwd true (s.cache.entryPath hash) with
    | error e => simp [hf, bind, Except.bind] at hread
    | ok found =>
      rcases found with ⟨p, n⟩
      obtain ⟨t, ht, rfl, hn⟩ := find_ok hf
      rw [h.holds.locate hdots (isName_entry hstem) ht] at hn
      simp only [hf, bind, Except.bind] at hread
      rcases h.holds.fine _ n hn with hd | ⟨id, content, mode, rfl, htext⟩
      · cases n with
        | dir mode => cases hread
        | _ => cases hd
      · cases hread
        exact htext
  | freshId =>
    cases ha
    exact isStem_freshId m.kernel
  | run command timeout => cases ha
  | _ => trivial

end Service

/-! ## Runs -/

/-- A change on the machine that puts no file into a directory and no link on the way to it. -/
structure Spares (dir : Place) (m m' : Machine) : Prop where
  cwd_eq : m'.cwd = m.cwd
  inside : ∀ name n, m'.files.get? (dir ++ [name]) = some n →
    n.isDir = true ∨ m.files.get? (dir ++ [name]) = some n
  links : ∀ q target, q <+: dir → m'.files.get? q = some (.link target) →
    m.files.get? q = some (.link target)

namespace Service

variable {c : Call} {path : String}
variable {s : Service} {stdoutOf : String → ByteArray} {cwd : Place} {m m' : Machine}

theorem Sound.spared (h : s.Sound stdoutOf cwd m) (hs : Spares (s.cachePlace cwd) m m') :
    s.Sound stdoutOf cwd m' := by
  refine ⟨hs.cwd_eq.trans h.cwd_eq, fun q hq target hlink => ?_, fun name n hn => ?_⟩
  · exact h.holds.unlinked q hq target (hs.links q target hq hlink)
  rcases hs.inside name n hn with hd | hold
  · exact .inl hd
  · exact h.holds.fine name n hold

/-- What a waited-for reply says, as far as it is a runner's. -/
def RunnerIsTrue (stdoutOf : String → ByteArray) (source : String) : (c : Call) → c.Reply → Prop
  | .run command _, r => PrintsFor stdoutOf source command r
  | _, _ => True

variable {ι : Type} [DecidableEq ι]

/-- What can happen around clients of a service. Their commands print what their own source
prints, and nobody but them puts files into the cache directory; how far they keep their other
files out of it is said by `fence`. -/
def surroundings (s : Service) (stdoutOf : String → ByteArray) (cwd : Place) (client : ι → Client)
    (fence : Machine → Call → Prop) : Rules ι fun i => (client i).Answer where
  prompt _ m c _ _ := fence m c
  late i m c r m' := RunnerIsTrue stdoutOf (client i).source c r ∧ Spares (s.cachePlace cwd) m m'
  beside scene m' := Spares (s.cachePlace cwd) scene.machine m'

/-- All clients have just come. -/
def opening (s : Service) (client : ι → Client) (m : Machine) :
    Scene ι fun i => (client i).Answer :=
  ⟨m, fun i => { rest := (client i).program s }⟩

/-- No link leads to the cache directory, and it holds no files. -/
structure StartsEmpty (s : Service) (cwd : Place) (m : Machine) : Prop where
  cwd_eq : m.cwd = cwd
  unlinked : m.files.Unlinked (s.cachePlace cwd)
  empty : ∀ name n, m.files.get? (s.cachePlace cwd ++ [name]) = some n → n.isDir = true

/-- What holds in every scene: the directory is as it should be, every client keeps to its
discipline, and has heard only what it reckons with. -/
structure InOrder (s : Service) (stdoutOf : String → ByteArray) (cwd : Place) (client : ι → Client)
    (scene : Scene ι fun i => (client i).Answer) : Prop where
  sound : s.Sound stdoutOf cwd scene.machine
  keeps : ∀ i, (scene.tasks i).Keeps (s.conduct stdoutOf (client i).source) ()
    fun _ => (client i).IsRight s stdoutOf
  heard : ∀ i, ∀ e ∈ (scene.tasks i).past, s.mayHear stdoutOf (client i).source e.call e.reply

variable {client : ι → Client} {scene scene' : Scene ι fun i => (client i).Answer}

theorem hears_late {source : String} {r : c.Reply} (hw : c.waits = true)
    (h : RunnerIsTrue stdoutOf source c r) : s.mayHear stdoutOf source c r := by
  cases c with
  | run command timeout => exact h
  | readFile path => cases hw
  | freshId => cases hw
  | _ => trivial

omit [DecidableEq ι] in
theorem InOrder.opening (hstem : ∀ text, IsStem (s.cache.hash text)) (hm : s.StartsEmpty cwd m) :
    s.InOrder stdoutOf cwd client (s.opening client m) := by
  refine ⟨⟨hm.cwd_eq, hm.unlinked, fun name n hn => .inl (hm.empty name n hn)⟩, ?_, ?_⟩
  · exact fun i => Client.obeys_conduct s stdoutOf hstem (client i)
  intro i e he
  cases he

/-- A turn keeps everything in order. -/
theorem InOrder.step (hdots : ".." ∉ names s.cache.dir) (h : s.InOrder stdoutOf cwd client scene)
    (hstep : Scene.Step (s.surroundings stdoutOf cwd client (s.KeepsOut cwd)) scene scene') :
    s.InOrder stdoutOf cwd client scene' := by
  refine ⟨?_, ?_, ?_⟩
  · cases hstep with
    | @call i past c next r m at_ answer allowed =>
      have hk := h.keeps i
      rw [at_, Activity.Keeps, Program.obeys_call] at hk
      exact h.sound.answered hdots hk.1 allowed answer
    | @wait i past c next at_ waits =>
      exact ⟨by simpa using h.sound.cwd_eq, by simpa using h.sound.holds⟩
    | @reply i past c next r m at_ waits allowed => exact h.sound.spared allowed.2
    | beside allowed => exact h.sound.spared allowed
  · refine hstep.keeps h.keeps ?_ ?_
    · intro i y c r m' ha _ _
      exact h.sound.heard hdots _ ha
    intro i y c r m' hw hlate _
    exact hears_late hw hlate.1
  · intro i e he
    rcases hstep.past_cases i with hpast | ⟨c, r, hpast, hcase⟩
    · rw [hpast] at he
      exact h.heard i e he
    rw [hpast, mem_append, mem_singleton] at he
    rcases he with he | rfl
    · exact h.heard i e he
    rcases hcase with ⟨ha, -⟩ | ⟨hw, hlate⟩
    · exact h.sound.heard hdots _ ha
    · exact hears_late hw hlate.1

/-- Whatever order clients take their turns in: every output that is given is the one that a run of
its own source prints, every entry that is read is whole and right for the source it names, and so
is every file in the cache directory. Names may be given to sources in any way at all. -/
theorem served_outputs_are_right (s : Service) (stdoutOf : String → ByteArray) (cwd : Place)
    (client : ι → Client) (hdots : ".." ∉ Path.names s.cache.dir)
    (hstem : ∀ text, IsStem (s.cache.hash text)) {m : Machine} (hm : s.StartsEmpty cwd m)
    {scene : Scene ι fun i => (client i).Answer}
    (hrun : Scene.Runs (s.surroundings stdoutOf cwd client (s.KeepsOut cwd)) (s.opening client m)
      scene) :
    (∀ i a, (scene.tasks i).result? = some a → (client i).IsRight s stdoutOf a) ∧
    (∀ i hash bytes, IsStem hash →
      ⟨.readFile (s.cache.entryPath hash), .ok bytes⟩ ∈ (scene.tasks i).past →
        s.IsEntryText stdoutOf bytes) ∧
    (∀ name n, scene.files.get? (s.cachePlace cwd ++ [name]) = some n →
      s.IsFine stdoutOf n) := by
  have horder : s.InOrder stdoutOf cwd client scene :=
    hrun.invariant (InOrder.opening hstem hm) fun _ _ hstep h => h.step hdots hstep
  refine ⟨fun i a ha => ?_, fun i hash bytes hhash hmem => ?_, horder.sound.holds.fine⟩
  · have hk := horder.keeps i
    rwa [Activity.Keeps, Activity.rest_of_result? ha, Program.obeys_done] at hk
  · exact horder.heard i _ hmem hash bytes hhash rfl rfl

/-! ## A cached output, and one that is forged -/

/-- A toolchain whose manifest is written to a given path. -/
def plainTools (manifestFile manifest : String) : Toolchain :=
  { buildCommand := "b", buildArgs := [], runCommand := "r", runArgs := [], env := []
    manifestFile, manifest, sourceFile := "s", source := "x", artifacts := [] }

/-- A service with its cache in `/c` and its workspaces in `/w`, which files all sources under
one name. -/
def plain (tools : Toolchain) : Service :=
  { limits := { denyPatterns := [] }
    cache := { dir := "/c", maxEntries := 10, maxAge := 1000000000000, hash := fun _ => "h" }
    cacheEnabled := true
    template := default
    templateEnabled := false
    workspaces := ⟨"/w", "/t", tools⟩
    audit := ⟨false, "/a"⟩
    sentinel := "=" }

theorem isStem_hash_plain (tools : Toolchain) (text : String) :
    IsStem ((plain tools).cache.hash text) := by
  have hstem : IsStem "h" := by
    unfold IsStem
    decide
  exact hstem

theorem startsEmpty_bare (tools : Toolchain) : (plain tools).StartsEmpty [] .bare := by
  have hnone : ∀ q, q ≠ [] → Machine.bare.files.get? q = none := fun q hq =>
    get?_of_ne _ hq
  refine ⟨rfl, fun q _ target => ?_, fun name n hn => ?_⟩
  · by_cases hq : q = []
    · simp [hq]
    · simp [hnone q hq]
  · rw [hnone _ (by simp)] at hn
    cases hn

/-- Every source prints itself. -/
def echo (text : String) : ByteArray := text.toUTF8

/-- Commands succeed at once and print the source of the client. -/
def echoing (client : Fin 2 → Client) (i : Fin 2) (m : Machine) :
    (c : Call) → Option (Machine × c.Reply)
  | .run _ _ => some (m, .ok ⟨0, echo (client i).source, .empty⟩)
  | _ => none

theorem Spares.refl (dir : Place) (m : Machine) : Spares dir m m :=
  ⟨rfl, fun _ _ h => .inr h, fun _ _ _ h => h⟩

theorem late_echoing {fence : Machine → Call → Prop} (client : Fin 2 → Client)
    (i : Fin 2) (m : Machine) (c : Call) (r : c.Reply) (m' : Machine)
    (h : echoing client i m c = some (m', r)) :
    (s.surroundings echo [] client fence).late i m c r m' := by
  cases c with
  | run command timeout =>
    cases h
    refine ⟨fun _ result hok _ => ?_, Spares.refl _ _⟩
    cases hok
    rfl
  | _ => cases h

/-- A check that a write does not get into a directory. -/
def landsElsewhere (dir : Place) (m : Machine) (path : String) : Bool :=
  match m.files.locate m.cwd true path with
  | .ok t => t.place.dropLast != dir
  | .error _ => true

theorem not_landsIn {dir : Place} (h : landsElsewhere dir m path = true) :
    ¬ LandsIn dir m path := by
  rintro ⟨t, name, ht, hplace⟩
  rw [landsElsewhere, ht] at h
  simp [hplace] at h

/-- A check that suffices for workspaces in `/w` and a cache in `/c`. -/
def staysOut (m : Machine) : Call → Bool
  | .writeFile path _ => !"/w".toList.isPrefixOf path.toList || landsElsewhere ["c"] m path
  | .appendFile path _ => landsElsewhere ["c"] m path
  | _ => true

theorem prefix_join {a b : String} (ha : a ≠ "") (hb : isAbsolute b = false) :
    a.toList <+: (join a b).toList := by
  unfold join
  have he : a.isEmpty = false := by simpa using ha
  simp only [hb, he, Bool.or_self, Bool.false_eq_true, if_false]
  split
  · simp
  · simp

/-- Files of a workspace that are named by relative paths are below the root of workspaces. -/
theorem prefix_of_isWorkspaceFile (hroot : s.workspaces.root ≠ "")
    (hmanifest : isAbsolute s.workspaces.toolchain.manifestFile = false)
    (hsource : isAbsolute s.workspaces.toolchain.sourceFile = false)
    (h : s.IsWorkspaceFile path) : s.workspaces.root.toList <+: path.toList := by
  obtain ⟨id, hpath⟩ := h
  have hname : isAbsolute ("kiln-" ++ hyphenated id) = false := by
    rw [isAbsolute_append (by decide +kernel)]
    decide +kernel
  have hbelow := prefix_join hroot hname
  have hne : join s.workspaces.root ("kiln-" ++ hyphenated id) ≠ "" := by
    intro hempty
    rw [hempty, String.toList_empty, prefix_nil] at hbelow
    exact hroot (String.toList_eq_nil_iff.mp hbelow)
  simp only [Workspaces.describe] at hpath
  rcases hpath with rfl | rfl
  · exact hbelow.trans (prefix_join hne hmanifest)
  · exact hbelow.trans (prefix_join hne hsource)

/-- A service that keeps its manifest in the workspace. -/
def tidy : Service := plain (plainTools "m" "")

theorem keepsOut_of_staysOut (h : staysOut m c = true) : tidy.KeepsOut [] m c := by
  have hdir : tidy.cachePlace [] = ["c"] := by decide +kernel
  cases c with
  | writeFile path bytes =>
    intro hworkspace
    have hbelow : "/w".toList <+: path.toList :=
      prefix_of_isWorkspaceFile (by decide) (by decide) (by decide) hworkspace
    rw [staysOut, isPrefixOf_iff_prefix.mpr hbelow] at h
    exact not_landsIn h
  | appendFile path bytes =>
    rw [KeepsOut, hdir]
    exact not_landsIn h
  | _ => trivial

@[reducible] def twice : Fin 2 → Client
  | 0 => .generate " a " none
  | 1 => .generate "a" none

/-- The second of two requests for one source is answered from the cache. -/
theorem served_outputs_are_right_cached :
    ∃ scene : Scene (Fin 2) fun i => (twice i).Answer,
      Scene.Runs (tidy.surroundings echo [] twice (tidy.KeepsOut [])) (tidy.opening twice .bare)
        scene ∧
      (scene.tasks 1).result? = some (.ok ⟨"a", true⟩) ∧
      (twice 1).IsRight tidy echo (.ok ⟨"a", true⟩) := by
  have hplay : ((tidy.opening twice .bare).play staysOut (echoing twice)
      (List.replicate 41 0 ++ List.replicate 8 1)).map
      (fun scene => (scene.tasks 1).value?) = some (some ⟨"a", true⟩) := by
    decide +kernel
  obtain ⟨scene, hscene, hlast⟩ := Option.map_eq_some_iff.mp hplay
  have hruns : Scene.Runs (tidy.surroundings echo [] twice (tidy.KeepsOut []))
      (tidy.opening twice .bare) scene :=
    Scene.runs_of_play (fun _ _ _ _ _ h _ => keepsOut_of_staysOut h) (late_echoing twice) hscene
  have hresult := Activity.result?_of_value? hlast
  have hright := (served_outputs_are_right tidy echo [] twice (by decide +kernel)
    (isStem_hash_plain _) (startsEmpty_bare _) hruns).1 1 _ hresult
  exact ⟨scene, hruns, hresult, hright⟩

/-- An entry that no run has made. -/
def forged : Entry := ⟨"x", "forged", Kernel.epoch, "h"⟩

/-- A service whose manifest is a forged entry, written into the cache directory. -/
def careless : Service := plain (plainTools "/c/h.json" forged.toJson.pretty)

@[reducible] def eachOnce : Fin 2 → Client
  | 0 => .generate "y" none
  | 1 => .generate "x" none

/-- A request whose workspace reaches into the cache directory makes the cache serve an output that
no run has printed. -/
theorem forged_output_served :
    ∃ scene : Scene (Fin 2) fun i => (eachOnce i).Answer,
      Scene.Runs (careless.surroundings echo [] eachOnce fun _ _ => True)
        (careless.opening eachOnce .bare) scene ∧
      careless.StartsEmpty [] .bare ∧
      (scene.tasks 1).result? = some (.ok ⟨"forged", true⟩) ∧
      ¬ (eachOnce 1).IsRight careless echo (.ok ⟨"forged", true⟩) := by
  have hplay : ((careless.opening eachOnce .bare).play (fun _ _ => true) (echoing eachOnce)
      (List.replicate 14 0 ++ List.replicate 8 1)).map
      (fun scene => (scene.tasks 1).value?) = some (some ⟨"forged", true⟩) := by
    decide +kernel
  obtain ⟨scene, hscene, hlast⟩ := Option.map_eq_some_iff.mp hplay
  have hruns : Scene.Runs (careless.surroundings echo [] eachOnce fun _ _ => True)
      (careless.opening eachOnce .bare) scene :=
    Scene.runs_of_play (fun _ _ _ _ _ _ _ => trivial) (late_echoing eachOnce) hscene
  refine ⟨scene, hruns, startsEmpty_bare _, Activity.result?_of_value? hlast, ?_⟩
  rintro ⟨text, htext, houtput⟩
  have hx : String.fromUTF8? (echo (Text.trim "x")) = some "x" := by decide +kernel
  rw [hx] at htext
  cases htext
  revert houtput
  decide +kernel

end Service

end Foundry
