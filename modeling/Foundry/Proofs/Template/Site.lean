import Foundry.Proofs.Files.Trees
import Foundry.Proofs.Interleaving
import Foundry.Proofs.Template.Stages

/-!
# The site of a template

What builders do to the three places that matter: the directory, the marker in it and
the lock file beside it. No call of a builder puts the lock file away or gives it
another number, so all builders lock the same file. The marker is made only by
writing it and goes only with the directory.
-/

namespace Foundry

open Files Path Machine Kernel List

/-- The calls that can take a file away. -/
def Call.removes : Call → Bool
  | .removeTree _ | .run .. => true
  | _ => false

/-- The calls that can make a file. -/
def Call.writes : Call → Bool
  | .writeFile .. | .run .. => true
  | _ => false

namespace Template

variable {dir : Place} {h : Nat}
variable {t : Template} {cwd : Place} {m m' : Machine} {c : Call} {s : Stage}
  {r : Except Cause Unit} {bytes : ByteArray} {p : Place} {id : Nat}

def rootPlace (t : Template) (cwd : Place) : Place := Files.placeOf cwd t.root

def lockPlace (t : Template) (cwd : Place) : Place := Files.placeOf cwd t.lockPath

def markerPlace (t : Template) (cwd : Place) : Place := Files.placeOf cwd t.marker

/-- The lock file is not in the directory of the template. -/
structure Apart (t : Template) (cwd : Place) : Prop where
  root_dots : ".." ∉ Path.names t.root
  lock_dots : ".." ∉ Path.names t.lockPath
  outside : ¬ t.rootPlace cwd <+: t.lockPlace cwd

/-- A lock file beside a directory, under the name of the directory, is not in it. -/
theorem apart_of_lockPathOf {name : String} (cwd : Place) (hlock : t.lockPath = lockPathOf t.root)
    (hname : fileName? t.root = some name) (hdots : ".." ∉ names t.root) : t.Apart cwd := by
  obtain ⟨hreal, hplace⟩ := placeOf_fileName cwd hname
  have hsteps := steps_fileName hname
  have hlockPath : t.lockPath = join ((parent? t.root).getD "") (name ++ ".lock") := by
    rw [hlock, lockPathOf, hname]
    simp [withFileName, hname]
  have hlong : (name ++ ".lock").toList.length = name.toList.length + 5 := by simp
  have hlockName : Path.IsName (name ++ ".lock") := by
    refine ⟨?_, ?_, ?_, ?_⟩
    · intro h
      simp [h] at hlong
    · intro h
      simp [h] at hlong
    · intro h
      simp [h] at hlong
    · simpa using hreal.no_slash
  have hparent : ".." ∉ names ((parent? t.root).getD "") := by
    intro hmem
    refine hdots (mem_of_mem_filter (p := (· ≠ ".")) ?_)
    change ".." ∈ steps (names t.root)
    rw [hsteps]
    exact mem_append_left _ (mem_filter.mpr ⟨hmem, by decide⟩)
  refine ⟨hdots, ?_, ?_⟩
  · rw [hlockPath, names_join (isAbsolute_of_isName hlockName),
      names_of_isName hlockName]
    simp [hparent, hlockName.ne_dots.symm]
  · rw [rootPlace, lockPlace, hlockPath, placeOf_join_name hlockName, hplace]
    intro hprefix
    have heq := hprefix.eq_of_length (by simp)
    have hsame : name = name ++ ".lock" := by simpa using heq
    have := congrArg (fun s => s.toList.length) hsame
    simp at this

/-- Nothing but files and directories is on the way to the lock file and to the marker. -/
structure Site (t : Template) (cwd : Place) (m : Machine) : Prop where
  cwd_eq : m.cwd = cwd
  closed : m.files.Closed
  lock_plain : m.files.Plain (t.lockPlace cwd)
  marker_plain : m.files.Plain (t.markerPlace cwd)
  handles_old : ∀ h, (m.handles.lookup h).isSome = true → h < m.fresh

/-- The number of the lock file. -/
def IsLockFile (t : Template) (cwd : Place) (m : Machine) (id : Nat) : Prop :=
  ∃ bytes mode, m.files.get? (t.lockPlace cwd) = some (.file id bytes mode)

theorem IsLockFile.unique {id' : Nat} (h : t.IsLockFile cwd m id) (h' : t.IsLockFile cwd m id') :
    id = id' := by
  obtain ⟨bytes, mode, hn⟩ := h
  obtain ⟨bytes', mode', hn'⟩ := h'
  rw [hn] at hn'
  cases hn'
  rfl

/-- The marker is seen. -/
def IsMarked (t : Template) (cwd : Place) (m : Machine) : Prop :=
  m.files.isFile cwd t.marker = true

theorem isName_marker : Path.IsName ".kiln-ready" :=
  ⟨by decide, by decide, by decide, by decide⟩

theorem names_marker (t : Template) : names t.marker = names t.root ++ [".kiln-ready"] := by
  rw [marker, names_join (isAbsolute_of_isName isName_marker),
    names_of_isName isName_marker]

theorem markerPlace_eq (t : Template) (cwd : Place) :
    t.markerPlace cwd = t.rootPlace cwd ++ [".kiln-ready"] :=
  placeOf_join_name isName_marker

theorem Apart.marker_dots (h : t.Apart cwd) : ".." ∉ names t.marker := by
  rw [names_marker]
  simp [h.root_dots]

theorem Apart.lock_ne_marker (h : t.Apart cwd) : t.lockPlace cwd ≠ t.markerPlace cwd := by
  intro heq
  refine h.outside ?_
  rw [heq, markerPlace_eq]
  exact prefix_append _ _

theorem getLast_marker (t : Template) : (names t.marker).getLast? = some ".kiln-ready" := by
  simp [names_marker]

theorem Site.isMarked_iff (h : t.Site cwd m) (ha : t.Apart cwd) : t.IsMarked cwd m ↔
    Files.Usable t.marker ∧ m.files.IsFileAt (t.markerPlace cwd) :=
  isFile_iff h.closed ha.marker_dots (getLast_marker t) (by decide) h.marker_plain

/-! ## Changes of files -/

/-- What a change of files may do: it keeps the way to the marker and to the lock file plain and
the number of the lock file. -/
structure Respects (t : Template) (cwd : Place) (fs fs' : Files) : Prop where
  closed : fs.Closed → fs'.Closed
  lock_plain : fs.Plain (t.lockPlace cwd) → fs'.Plain (t.lockPlace cwd)
  marker_plain : fs.Plain (t.markerPlace cwd) → fs'.Plain (t.markerPlace cwd)
  lock : ∀ id bytes mode, fs.get? (t.lockPlace cwd) = some (.file id bytes mode) →
    ∃ bytes mode, fs'.get? (t.lockPlace cwd) = some (.file id bytes mode)

variable {fs fs' : Files} {path : String}

/-- A change that keeps every way plain. -/
theorem Respects.of_plain (closed : fs.Closed → fs'.Closed) (plain : ∀ p, fs.Plain p → fs'.Plain p)
    (lock : ∀ id bytes mode, fs.get? (t.lockPlace cwd) = some (.file id bytes mode) →
    ∃ bytes mode, fs'.get? (t.lockPlace cwd) = some (.file id bytes mode)) :
    t.Respects cwd fs fs' :=
  ⟨closed, plain _, plain _, lock⟩

theorem respects_makeDirs (t : Template) (cwd : Place) (fs : Files) (dir : Place) (path : String) :
    t.Respects cwd fs (fs.makeDirs dir path).1 := by
  have hgains := gainsDirs_makeDirs fs dir path
  refine .of_plain (fun h => h.makeDirs dir path) (fun _ h => h.of_gainsDirs hgains) ?_
  intro id bytes mode h
  exact ⟨bytes, mode, hgains.kept _ _ h⟩

theorem respects_edit {f : ByteArray → ByteArray} (he : fs.edit dir path f = .ok fs') :
    t.Respects cwd fs fs' := by
  obtain ⟨u, -, ⟨id', bytes', mode', hs, hold⟩ | ⟨rfl, -⟩⟩ := edit_ok he
  · refine .of_plain (fun h => h.edit he) (fun _ h => h.of_sets hs rfl) ?_
    intro id bytes mode h
    rw [hs]
    split
    · rename_i hplace
      rcases hold with hold | ⟨hold, -⟩
      · rw [← hplace, h] at hold
        cases hold
        exact ⟨_, _, rfl⟩
      · rw [← hplace, h] at hold
        cases hold
    · exact ⟨bytes, mode, h⟩
  · exact .of_plain id (fun _ h => h) fun _ bytes mode h => ⟨bytes, mode, h⟩

theorem respects_editId (t : Template) (cwd : Place) (fs : Files) (id : Nat)
    (f : ByteArray → ByteArray) : t.Respects cwd fs (fs.editId id f) := by
  refine .of_plain (fun h => h.editId id f) (fun _ h => h.editId id f) ?_
  intro id' bytes mode h
  rw [get?_editId, h]
  by_cases hid : id' = id <;> simp [editNode, hid]

theorem respects_openForWriting {n : Node} (ho : fs.openForWriting dir path = .ok (fs', p, n)) :
    t.Respects cwd fs fs' := by
  obtain ⟨u, -, -, -, ⟨rfl, -⟩ | ⟨hnone, -, rfl, hs⟩⟩ := openForWriting_ok ho
  · exact .of_plain id (fun _ h => h) fun _ bytes mode h => ⟨bytes, mode, h⟩
  refine .of_plain (fun h => h.openForWriting ho) (fun _ h => h.of_sets hs rfl) ?_
  intro id bytes mode h
  refine ⟨bytes, mode, ?_⟩
  rw [hs, if_neg ?_]
  · exact h
  rintro rfl
  rw [hnone] at h
  cases h

/-- Removing the directory changes nothing outside of it. -/
theorem get?_removeTree (ha : t.Apart cwd) (hp : fs.Plain (t.markerPlace cwd)) {q : Place}
    (hq : ¬ t.rootPlace cwd <+: q) : (fs.removeTree cwd t.root).1.get? q = fs.get? q := by
  have hroot : fs.Unlinked (t.rootPlace cwd) := by
    rw [markerPlace_eq] at hp
    exact hp.unlinked.of_append
  have hne : q ≠ t.rootPlace cwd := by
    rintro rfl
    exact hq (prefix_refl _)
  have hbelow : ¬ Files.IsBelow (t.rootPlace cwd) q := fun h => hq h.1
  unfold removeTree
  split
  · rfl
  · rename_i p target hf
    obtain ⟨rfl, -⟩ := find_place ha.root_dots hroot hf
    exact (get?_erase _ _ _).trans (if_neg fun h => hne h.1)
  · rename_i p mode hf
    obtain ⟨rfl, -⟩ := find_place ha.root_dots hroot hf
    have hemptied : (fs.eraseBelow (t.rootPlace cwd)).get? q = fs.get? q :=
      (get?_eraseBelow _ _ _).trans (if_neg hbelow)
    dsimp only
    split
    · exact hemptied
    · exact hemptied
    · exact ((get?_erase _ _ _).trans (if_neg fun h => hne h.1)).trans hemptied
  · rfl

theorem respects_removeTree (ha : t.Apart cwd) (hp : fs.Plain (t.markerPlace cwd)) :
    t.Respects cwd fs (fs.removeTree cwd t.root).1 := by
  refine .of_plain (fun h => h.removeTree cwd t.root)
    (fun _ h => h.of_covers (covers_removeTree fs cwd t.root)) ?_
  intro id bytes mode h
  exact ⟨bytes, mode, (get?_removeTree ha hp ha.outside).trans h⟩

theorem Site.respects (h : t.Site cwd m) (hr : t.Respects cwd m.files fs) :
    t.Site cwd (m.withFiles fs) :=
  ⟨h.cwd_eq, hr.closed h.closed, hr.lock_plain h.lock_plain, hr.marker_plain h.marker_plain,
    h.handles_old⟩

/-! ## Calls -/

/-- How waiting for a lock ends. -/
inductive LockTurn (m : Machine) (handle : Nat) : LockReply → Machine → Prop
  | acquired {k : Kernel} (h : m.kernel.tryLock handle = some k) :
      LockTurn m handle .acquired { m with kernel := k }
  | stillHeld (h : m.kernel.tryLock handle = none) : LockTurn m handle .stillHeld m
  | failed (cause : Cause) : LockTurn m handle (.failed cause) m

/-- What commands and others leave alone: the lock table, the lock file, and the ways to it and to
the marker. -/
structure Leaves (t : Template) (cwd : Place) (m m' : Machine) : Prop where
  cwd_eq : m'.cwd = m.cwd
  handles_eq : m'.handles = m.handles
  locks_eq : m'.locks = m.locks
  fresh_le : m.fresh ≤ m'.fresh
  calls_eq : m'.calls = m.calls
  respects : t.Respects cwd m.files m'.files

theorem Leaves.refl (t : Template) (cwd : Place) (m : Machine) : t.Leaves cwd m m :=
  ⟨rfl, rfl, rfl, Nat.le_refl _, rfl,
    .of_plain id (fun _ h => h) fun _ bytes mode h => ⟨bytes, mode, h⟩⟩

/-- What can come of a call. -/
inductive Turn (t : Template) (cwd : Place) (m : Machine) : (c : Call) → c.Reply → Machine → Prop
  | prompt {c : Call} {r : c.Reply} {m' : Machine} (h : m.answer? c = some (m', r)) :
      Turn t cwd m c r m'
  | lock {handle : Nat} {wait : Duration} {r : LockReply} {m' : Machine}
      (h : LockTurn m handle r m') : Turn t cwd m (.lock handle wait) r m'
  | run {command : Command} {timeout : Duration} {r : Except Fault CommandResult} {m' : Machine}
      (h : t.Leaves cwd m m') : Turn t cwd m (.run command timeout) r m'

theorem Turn.answered {r : c.Reply} (h : t.Turn cwd m c r m') (hc : c.waits = false) :
    m.answer? c = some (m', r) := by
  cases h with
  | prompt h => exact h
  | lock => cases hc
  | run => cases hc

/-- What a turn does to the lock table. -/
inductive Moves (t : Template) (cwd : Place) (m m' : Machine) (s s' : Stage) : Prop
  | stays (handles : m'.handles = m.handles) (locks : m'.locks = m.locks)
      (handle : s'.handle? = s.handle?)
      (holding : ∀ h, s'.holding? = some h → s.holding? = some h)
  | opens (id : Nat) (handles : m'.handles = (m.fresh, some id) :: m.handles)
      (locks : m'.locks = m.locks) (file : t.IsLockFile cwd m' id)
      (was : s.handle? = none) (now : s' = .opened m.fresh)
  | locks (h : Nat) (kernel : m.kernel.tryLock h = some m'.kernel) (was : s = .opened h)
      (now : s' = .held h)
  | closes (h : Nat) (kernel : m'.kernel = m.kernel.closeLock h) (was : s.handle? = some h)
      (now : s'.handle? = none)

/-- What a builder's turn does to the site. -/
structure Effect (t : Template) (cwd : Place) (m m' : Machine) (s s' : Stage) : Prop where
  site : t.Site cwd m'
  lock : ∀ id, t.IsLockFile cwd m id → t.IsLockFile cwd m' id
  calls : m'.calls = m.calls
  moves : t.Moves cwd m m' s s'

variable {s s' : Stage}

theorem Site.of_kernel_eq (hm : t.Site cwd m) (hk : m'.kernel = m.kernel) : t.Site cwd m' := by
  rcases hm with ⟨h1, h2, h3, h4, h5⟩
  rw [← hk] at h1 h2 h3 h4 h5
  exact ⟨h1, h2, h3, h4, h5⟩

theorem IsLockFile.of_kernel_eq (h : t.IsLockFile cwd m id) (hk : m'.kernel = m.kernel) :
    t.IsLockFile cwd m' id := by
  unfold IsLockFile at h ⊢
  rwa [hk]

theorem Effect.of_kernel_eq (hm : t.Site cwd m) (hk : m'.kernel = m.kernel)
    (hc : m'.calls = m.calls)
    (handle : s'.handle? = s.handle?) (holding : ∀ h, s'.holding? = some h → s.holding? = some h) :
    t.Effect cwd m m' s s' where
  site := hm.of_kernel_eq hk
  lock _ hid := hid.of_kernel_eq hk
  calls := hc
  moves := .stays (by rw [hk]) (by rw [hk]) handle holding

theorem Effect.of_files (hm : t.Site cwd m) (hr : t.Respects cwd m.files fs)
    (handle : s'.handle? = s.handle?) (holding : ∀ h, s'.holding? = some h → s.holding? = some h) :
    t.Effect cwd m (m.withFiles fs) s s' where
  site := hm.respects hr
  lock _ := fun ⟨_, _, hn⟩ => hr.lock _ _ _ hn
  calls := rfl
  moves := .stays rfl rfl handle holding

theorem Site.leaves (hm : t.Site cwd m) (hl : t.Leaves cwd m m') : t.Site cwd m' where
  cwd_eq := hl.cwd_eq.trans hm.cwd_eq
  closed := hl.respects.closed hm.closed
  lock_plain := hl.respects.lock_plain hm.lock_plain
  marker_plain := hl.respects.marker_plain hm.marker_plain
  handles_old := fun h hh =>
    Nat.lt_of_lt_of_le (hm.handles_old h (hl.handles_eq ▸ hh)) hl.fresh_le

theorem IsLockFile.leaves (h : t.IsLockFile cwd m id) (hl : t.Leaves cwd m m') :
    t.IsLockFile cwd m' id := by
  obtain ⟨_, _, hn⟩ := h
  exact hl.respects.lock _ _ _ hn

theorem Effect.of_leaves (hm : t.Site cwd m) (hl : t.Leaves cwd m m')
    (handle : s'.handle? = s.handle?) (holding : ∀ h, s'.holding? = some h → s.holding? = some h) :
    t.Effect cwd m m' s s' where
  site := hm.leaves hl
  lock _ hid := hid.leaves hl
  calls := hl.calls_eq
  moves := .stays hl.handles_eq hl.locks_eq handle holding

theorem effect_writeFile (hm : t.Site cwd m) (ha : m.answer? (.writeFile path bytes) = some (m', r))
    (handle : s'.handle? = s.handle?) (holding : ∀ h, s'.holding? = some h → s.holding? = some h) :
    t.Effect cwd m m' s s' := by
  simp only [answer?, changing, Option.some.injEq] at ha
  split at ha
  · rename_i files hw
    cases ha
    exact .of_files hm (respects_edit hw) handle holding
  · cases ha
    exact .of_kernel_eq hm rfl rfl handle holding

theorem effect_markLock (hm : t.Site cwd m) (ha : m.answer? (.markLock h bytes) = some (m', r))
    (handle : s'.handle? = s.handle?) (holding : ∀ h, s'.holding? = some h → s.holding? = some h) :
    t.Effect cwd m m' s s' := by
  simp only [answer?] at ha
  split at ha
  · rename_i k hk
    cases ha
    unfold markLock at hk
    split at hk
    · cases hk
    cases hk
    exact .of_files hm (respects_editId t cwd _ _ _) handle holding
  · cases ha
    exact .of_kernel_eq hm rfl rfl handle holding

theorem effect_openLock (ha : t.Apart cwd) (hm : t.Site cwd m) {r : Except Cause Nat}
    (hr : m.answer? (.openLock t.lockPath) = some (m', r)) (hs : s.handle? = none)
    (hs' : ∀ h, r = .ok h → s' = .opened h) (hend : ∀ e, r = .error e → s'.handle? = none)
    (hnone : ∀ e, r = .error e → s'.holding? = none) : t.Effect cwd m m' s s' := by
  simp only [answer?] at hr
  split at hr
  · rename_i h k hk
    cases hr
    have hs' := hs' h rfl
    unfold openLock at hk
    cases ho : m.files.openForWriting m.cwd t.lockPath with
    | error e => simp [ho, bind, Except.bind] at hk
    | ok found =>
      rcases found with ⟨files, p, n⟩
      simp only [ho, bind, Except.bind, takeFresh, Except.ok.injEq, Prod.mk.injEq] at hk
      obtain ⟨rfl, rfl⟩ := hk
      have hresp : t.Respects cwd m.files files := respects_openForWriting ho
      obtain ⟨u, hu, rfl, -, hcase⟩ := openForWriting_ok ho
      rw [hm.cwd_eq] at hu
      have hplace := locate_place ha.lock_dots hm.lock_plain.unlinked hu
      -- what is opened is a plain file, since nothing else is on the way
      obtain ⟨id, bytes, mode, rfl, hn⟩ : ∃ id bytes mode, n = .file id bytes mode ∧
          files.get? (t.lockPlace cwd) = some n := by
        rw [hplace] at hcase
        rcases hcase with ⟨rfl, hn, hdir⟩ | ⟨-, -, rfl, hset⟩
        · have hplain := hm.lock_plain _ (prefix_refl _) n hn
          cases n with
          | file id bytes mode => exact ⟨id, bytes, mode, rfl, hn⟩
          | dir mode => cases hdir
          | _ => cases hplain
        · exact ⟨_, _, _, rfl, by rw [hset]; exact if_pos rfl⟩
      refine ⟨⟨hm.cwd_eq, hresp.closed hm.closed, hresp.lock_plain hm.lock_plain,
        hresp.marker_plain hm.marker_plain, ?_⟩, fun id hid => ?_, rfl,
        .opens id rfl rfl ⟨bytes, mode, hn⟩ hs hs'⟩
      rotate_left
      · obtain ⟨_, _, hn⟩ := hid
        exact hresp.lock _ _ _ hn
      intro k hk
      by_cases heq : k = m.fresh
      · exact heq ▸ Nat.lt_succ_self _
      have hb : (k == m.fresh) = false := by simpa using heq
      simp only [lookup_cons, hb] at hk
      exact Nat.lt_succ_of_lt (hm.handles_old k hk)
  · rename_i e _
    cases hr
    refine .of_kernel_eq hm rfl rfl ((hend e rfl).trans hs.symm) fun h hh => ?_
    rw [hnone e rfl] at hh
    cases hh

theorem effect_closeLock (hm : t.Site cwd m) {r : Unit}
    (hr : m.answer? (.closeLock h) = some (m', r)) (hs : s.handle? = some h)
    (hs' : s'.handle? = none) : t.Effect cwd m m' s s' := by
  cases hr
  refine ⟨⟨hm.cwd_eq, hm.closed, hm.lock_plain, hm.marker_plain, fun k hk => ?_⟩, fun _ hid => hid,
    rfl, .closes h rfl hs hs'⟩
  have hlookup := lookup_filter (fun k : Nat => decide (k ≠ h)) k m.handles
  simp only [closeLock] at hk
  rw [hlookup] at hk
  split at hk
  · exact hm.handles_old k hk
  · cases hk

theorem effect_lock (hm : t.Site cwd m) {wait : Duration} {r : LockReply}
    (hr : r ≠ .stillHeld) (hl : LockTurn m h r m') :
    t.Effect cwd m m' (.opened h) (Stage.after (.opened h) (.lock h wait) r) := by
  cases hl with
  | @acquired k hk =>
    have hfiles : k.files = m.files ∧ k.cwd = m.cwd ∧ k.handles = m.handles ∧
        k.fresh = m.fresh := by
      unfold tryLock at hk
      split at hk
      · cases hk
        exact ⟨rfl, rfl, rfl, rfl⟩
      split at hk
      · cases hk
      cases hk
      exact ⟨rfl, rfl, rfl, rfl⟩
    obtain ⟨hf, hc, hh, hn⟩ := hfiles
    rcases hm with ⟨h1, h2, h3, h4, h5⟩
    rw [← hf] at h2 h3 h4
    rw [← hh, ← hn] at h5
    refine ⟨⟨hc.trans h1, h2, h3, h4, h5⟩, fun id hid => ?_, rfl, .locks h hk rfl rfl⟩
    unfold IsLockFile
    rw [hf]
    exact hid
  | stillHeld => exact absurd rfl hr
  | failed e => exact .of_kernel_eq hm rfl rfl rfl fun _ hh => by cases hh

/-- Every turn of a builder respects the site. -/
theorem Turn.effect (ha : t.Apart cwd) (hm : t.Site cwd m) {r : c.Reply}
    (hmay : s.May t c) (hr : Stage.hears c r) (h : t.Turn cwd m c r m') :
    t.Effect cwd m m' s (s.after c r) := by
  have hkeeps := fun hc => hmay.keeps_handle hc r
  cases hmay with
  | look | ownPid | owe | lookAgain | warnBuilding | today | settle | warn =>
    obtain ⟨hhandle, hholding⟩ := hkeeps rfl
    have h := h.answered rfl
    cases h
    exact .of_kernel_eq hm rfl rfl hhandle hholding
  | makeLockDir | makeSourceDir =>
    obtain ⟨hhandle, hholding⟩ := hkeeps rfl
    have h := h.answered rfl
    cases h
    exact .of_files hm (respects_makeDirs t cwd _ _ _) hhandle hholding
  | discard | discardFailed =>
    obtain ⟨hhandle, hholding⟩ := hkeeps rfl
    have h := h.answered rfl
    cases h
    refine .of_files hm ?_ hhandle hholding
    rw [hm.cwd_eq]
    exact respects_removeTree ha hm.marker_plain
  | writeManifest | writeSource | writeMarker =>
    obtain ⟨hhandle, hholding⟩ := hkeeps rfl
    exact effect_writeFile hm (h.answered rfl) hhandle hholding
  | mark | clear =>
    obtain ⟨hhandle, hholding⟩ := hkeeps rfl
    exact effect_markLock hm (h.answered rfl) hhandle hholding
  | run =>
    obtain ⟨hhandle, hholding⟩ := hkeeps rfl
    cases h with
    | prompt h => cases h
    | run h => exact .of_leaves hm h hhandle hholding
  | lock =>
    cases h with
    | prompt h => cases h
    | lock h => exact effect_lock hm hr h
  | openLock =>
    refine effect_openLock ha hm (h.answered rfl) rfl ?_ ?_ ?_
    · rintro handle rfl
      rfl
    · rintro e rfl
      rfl
    rintro e rfl
    rfl
  | closeRefused =>
    exact effect_closeLock hm (h.answered rfl) rfl rfl
  | close hs =>
    refine effect_closeLock hm (h.answered rfl) ?_ ?_
    · cases s <;> simp [Stage.ending?, Stage.handle?] at hs ⊢
      all_goals exact hs
    · cases s <;> simp [Stage.ending?, Stage.handle?, Stage.after] at hs ⊢

/-! ## The marker -/

theorem isFileAt_writeFile (h : m.answer? (.writeFile path bytes) = some (m', r))
    (hp : m.files.IsFileAt p) : m'.files.IsFileAt p := by
  simp only [answer?, changing, Option.some.injEq] at h
  split at h
  · rename_i files hw
    cases h
    obtain ⟨u, -, ⟨id, old, mode, hs, -⟩ | ⟨rfl, -⟩⟩ := edit_ok hw
    · exact (isFileAt_of_sets hs).mpr (.inr hp)
    · exact hp
  · cases h
    exact hp

theorem isFileAt_openLock (ha : t.Apart cwd) (hm : t.Site cwd m) {r : Except Cause Nat}
    (h : m.answer? (.openLock t.lockPath) = some (m', r)) (hp : p ≠ t.lockPlace cwd) :
    m'.files.IsFileAt p ↔ m.files.IsFileAt p := by
  simp only [answer?] at h
  split at h
  · rename_i handle k hk
    cases h
    unfold openLock at hk
    cases ho : m.files.openForWriting m.cwd t.lockPath with
    | error e => simp [ho, bind, Except.bind] at hk
    | ok found =>
      rcases found with ⟨files, q, n⟩
      simp only [ho, bind, Except.bind, takeFresh, Except.ok.injEq, Prod.mk.injEq] at hk
      obtain ⟨rfl, rfl⟩ := hk
      obtain ⟨u, hu, rfl, -, hcase⟩ := openForWriting_ok ho
      rw [hm.cwd_eq] at hu
      have hplace := locate_place ha.lock_dots hm.lock_plain.unlinked hu
      rcases hcase with ⟨rfl, -⟩ | ⟨-, -, rfl, hs⟩
      · exact Iff.rfl
      rw [isFileAt_of_sets hs, hplace]
      exact or_iff_right hp
  · cases h
    exact Iff.rfl

theorem isFileAt_markLock (hr : m.answer? (.markLock h bytes) = some (m', r)) :
    m'.files.IsFileAt p ↔ m.files.IsFileAt p := by
  simp only [answer?] at hr
  split at hr
  · rename_i k hk
    cases hr
    unfold markLock at hk
    split at hk
    · cases hk
    cases hk
    exact isFileAt_editId _ _ _ _
  · cases hr
    exact Iff.rfl

theorem isFileAt_lock {r : LockReply} (hl : LockTurn m h r m') :
    m'.files.IsFileAt p ↔ m.files.IsFileAt p := by
  cases hl with
  | @acquired k hk =>
    have hf : k.files = m.files := by
      unfold tryLock at hk
      grind
    rw [hf]
  | _ => exact Iff.rfl

/-- Only removing the directory and commands can take the marker away, only writing files and
commands can make it. -/
theorem Turn.isFileAt (ha : t.Apart cwd) (hm : t.Site cwd m) {r : c.Reply}
    (hmay : s.May t c) (h : t.Turn cwd m c r m') :
    (c.removes = false → m.files.IsFileAt (t.markerPlace cwd) →
    m'.files.IsFileAt (t.markerPlace cwd)) ∧
    (c.writes = false → m'.files.IsFileAt (t.markerPlace cwd) →
    m.files.IsFileAt (t.markerPlace cwd)) := by
  have hboth : ∀ {a b : Prop}, (b ↔ a) → (c.removes = false → a → b) ∧ (c.writes = false → b → a) :=
    fun hab => ⟨fun _ => hab.mpr, fun _ => hab.mp⟩
  cases hmay with
  | look | ownPid | owe | lookAgain | warnBuilding | today | settle | warn =>
    have h := h.answered rfl
    cases h
    exact hboth Iff.rfl
  | makeLockDir | makeSourceDir =>
    have h := h.answered rfl
    cases h
    exact hboth (isFileAt_of_gainsDirs (gainsDirs_makeDirs _ _ _))
  | discard | discardFailed =>
    have h := h.answered rfl
    cases h
    refine ⟨fun hc => ?_, fun _ hp => hp.of_covers (covers_removeTree _ _ _)⟩
    cases hc
  | writeManifest | writeSource | writeMarker =>
    refine ⟨fun _ => isFileAt_writeFile (h.answered rfl), fun hc => ?_⟩
    cases hc
  | mark | clear => exact hboth (isFileAt_markLock (h.answered rfl))
  | run =>
    refine ⟨fun hc => ?_, fun hc => ?_⟩
    · cases hc
    · cases hc
  | lock =>
    cases h with
    | prompt h => cases h
    | lock h => exact hboth (isFileAt_lock h)
  | openLock => exact hboth (isFileAt_openLock ha hm (h.answered rfl) ha.lock_ne_marker.symm)
  | closeRefused | close =>
    have h := h.answered rfl
    cases h
    exact hboth Iff.rfl

theorem Turn.isMarked_of_removes (ha : t.Apart cwd) (hm : t.Site cwd m) (hm' : t.Site cwd m')
    {r : c.Reply} (hmay : s.May t c) (h : t.Turn cwd m c r m') (hc : c.removes = false)
    (hmarked : t.IsMarked cwd m) : t.IsMarked cwd m' := by
  rw [hm.isMarked_iff ha] at hmarked
  exact (hm'.isMarked_iff ha).mpr ⟨hmarked.1, (h.isFileAt ha hm hmay).1 hc hmarked.2⟩

theorem Turn.isMarked_of_writes (ha : t.Apart cwd) (hm : t.Site cwd m) (hm' : t.Site cwd m')
    {r : c.Reply} (hmay : s.May t c) (h : t.Turn cwd m c r m') (hc : c.writes = false)
    (hmarked : t.IsMarked cwd m') : t.IsMarked cwd m := by
  rw [hm'.isMarked_iff ha] at hmarked
  exact (hm.isMarked_iff ha).mpr ⟨hmarked.1, (h.isFileAt ha hm hmay).2 hc hmarked.2⟩

/-- Once the marker has been written it is seen. -/
theorem Turn.isMarked_written (ha : t.Apart cwd) (hm : t.Site cwd m)
    (h : t.Turn cwd m (.writeFile t.marker bytes) (.ok ()) m') : t.IsMarked cwd m' := by
  have h := h.answered rfl
  simp only [answer?, changing, Option.some.injEq] at h
  split at h
  · rename_i files hw
    cases h
    rw [hm.cwd_eq] at hw
    exact isFile_edit hm.closed ha.marker_dots (getLast_marker t) (by decide) hm.marker_plain hw
  · cases h

/-- Looking for the marker changes nothing and tells whether it is seen. -/
theorem Turn.look (hm : t.Site cwd m) {r : Bool} (h : t.Turn cwd m (.isFile t.marker) r m') :
    m' = m ∧ (r = true ↔ t.IsMarked cwd m) := by
  have h := h.answered rfl
  cases h
  refine ⟨rfl, ?_⟩
  rw [IsMarked, hm.cwd_eq]

end Template

end Foundry
