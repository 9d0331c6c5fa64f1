import Foundry.Proofs.Cache.Stock
import Foundry.Proofs.Files.Grounds

/-!
# A clean slate or a complete template

A builder that has the lock removes the directory, writes two files, runs its command and
leaves the marker. File operations may break at any of these steps, with whatever they have
done by then, and the command may come to anything. Either way the directory ends up complete
or not there at all, and the lock file beside it empty.
-/

namespace Foundry

open Program Machine Files Path

/-! ## Builders in all circumstances -/

/-- What a builder may run into: what others do until it has the lock, what its command comes to
and leaves behind, and which file operations break, with what they have done by then. -/
structure Circumstances where
  lock : Machine → Machine
  command : Machine → Except Fault CommandResult × Files
  breaks : Machine → Call → Option (Cause × Files)

/-- The ground around a directory on a machine. -/
abbrev Machine.Ground (m : Machine) (dir : String) (d : Place) (name : String) (id : Nat) : Prop :=
  m.files.Ground m.cwd dir d name id

namespace Circumstances

variable {α β : Type} {w : Circumstances} {m m' : Machine} {a : α}

/-- Everything else is answered by the machine itself. -/
def answer (w : Circumstances) (m : Machine) : (c : Call) → Option (Machine × c.Reply)
  | .lock _ _ => some (w.lock m, .acquired)
  | .run command timeout => some ((m.addCall command timeout).withFiles (w.command m).2,
      (w.command m).1)
  | .makeDirs path => (w.breaks m (.makeDirs path)).elim (m.answer? (.makeDirs path))
      fun b => some (m.withFiles b.2, .error b.1)
  | .writeFile path bytes =>
    (w.breaks m (.writeFile path bytes)).elim (m.answer? (.writeFile path bytes))
    fun b => some (m.withFiles b.2, .error b.1)
  | c => m.answer? c

def run (w : Circumstances) (m : Machine) : Program α → Machine × Option α
  | .done a => (m, some a)
  | .call c next =>
    match w.answer m c with
    | some (m, r) => w.run m (next r)
    | none => (m, none)

theorem run_bind {p : Program α} (h : w.run m p = (m', some a)) (f : α → Program β) :
    w.run m (p >>= f) = w.run m' (f a) := by
  induction p generalizing m with
  | done b =>
    cases h
    rfl
  | call c next ih =>
    rw [bind_call, run]
    rw [run] at h
    cases hanswer : w.answer m c with
    | none =>
      rw [hanswer] at h
      cases h
    | some answered =>
      rw [hanswer] at h
      exact ih answered.2 h

theorem run_ask {c : Call} {r : c.Reply} (h : w.answer m c = some (m', r)) :
    w.run m (ask c) = (m', some r) := by
  rw [ask, run, h]
  rfl

theorem run_action_ok {p : Action α} (h : w.run m p.run = (m', some (.ok a))) (f : α → Action β) :
    w.run m (p >>= f).run = w.run m' (f a).run := by
  rw [Action.run_bind, run_bind h]

theorem run_action_error {p : Action α} {fault : Fault}
    (h : w.run m p.run = (m', some (.error fault)))
    (f : α → Action β) : w.run m (p >>= f).run = (m', some (.error fault)) := by
  rw [Action.run_bind, run_bind h]
  rfl

theorem run_lift {p : Program α} (h : w.run m p = (m', some a)) :
    w.run m (liftM p : Action α).run = (m', some (.ok a)) := by
  have hrun : (liftM p : Action α).run = p >>= fun a => .done (.ok a) := rfl
  rw [hrun, run_bind h]
  rfl

theorem run_orFault {p : Program (Except Cause α)} {r : Except Cause α} (context : String)
    (h : w.run m p = (m', some r)) :
    w.run m (orFault context p).run = (m', some (r.mapError (.files context))) := by
  rw [orFault, orFail, ExceptT.run_mk, run_bind h]
  cases r with
  | ok a => rfl
  | error e => rfl

/-- The ground around a directory outlasts what breaks and what the command does. -/
structure Spares (w : Circumstances) (dir : String) (d : Place) (name : String) (id : Nat) :
    Prop where
  breaks : ∀ m c e files, w.breaks m c = some (e, files) → m.Ground dir d name id →
    files.Ground m.cwd dir d name id
  command : ∀ m, m.Ground dir d name id →
    (w.command m).2.Ground m.cwd dir d name id

end Circumstances

namespace Template

open Circumstances (run_bind run_ask run_action_ok run_action_error run_lift run_orFault)
open Files (steps)

variable {t : Template} {w : Circumstances} {m m' : Machine} {dir name : String} {d : Place}
  {id : Nat}

/-- The directory goes by a plain name, with the lock beside it and the two files inside. -/
structure Stands (t : Template) (dir name : String) : Prop where
  root : t.root = Path.join dir name
  lockPath : t.lockPath = Path.join dir (name ++ ".lock")
  fits : Files.Fits dir name
  fitsLock : Files.Fits dir (name ++ ".lock")
  manifest : Files.Inward t.manifestFile
  source : Files.Inward t.sourceFile

/-- What the two files of a new directory hold. -/
def contents (t : Template) : Place → Option ByteArray :=
  Function.update (Function.update (fun _ => none) (steps (Path.names t.manifestFile))
    (some t.manifest.toUTF8)) (steps (Path.names t.sourceFile)) (some t.source.toUTF8)

theorem run_discard (hstands : t.Stands dir name) (hground : m.Ground dir d name id) :
    ∃ files, w.run m t.discard = (m.withFiles files, some ()) ∧ files.Ground m.cwd dir d name id ∧
    files.Gone (d ++ [name]) := by
  obtain ⟨files, r, hremove, hr, hall⟩ := hground.exists_removed hstands.fits
  have hanswer : w.answer m (.removeTree t.root) = some (m.withFiles files, r) := by
    have hself : m.answer? (.removeTree t.root) = some (m.withFiles files, r) := by
      rw [answer?, changingPartly, hstands.root, hremove]
    exact hself
  refine ⟨files, ?_, hground.of_removed hall, fun q hq => by rw [hall, if_pos hq]⟩
  rw [discard, run_bind (run_ask hanswer)]
  rcases hr with rfl | rfl
  · rfl
  · rfl

/-- What a command comes to, as a fault of the build; none if it succeeded. -/
def faultOf : Except Fault CommandResult → Option Fault
  | .error (.timeout _ seconds) =>
    some (.templateBuild ("timed out after " ++ Decimal.fixed 0 seconds ++ "s"))
  | .error fault => some fault
  | .ok result => if result.succeeded then none else some (.templateBuild result.combined)

/-- A new directory holds the two files, and directories for them. -/
def IsFresh (t : Template) (d : Place) (name : String) (fs : Files) : Prop :=
  fs.Holds (d ++ [name]) [steps (Path.names t.manifestFile), steps (Path.names t.sourceFile)]
    t.contents

/-- The machine once the command has ended. -/
def ran (t : Template) (w : Circumstances) (m : Machine) : Machine :=
  (m.addCall t.command t.buildTimeout).withFiles (w.command m).2

/-- What a build does before its command. -/
def prepare (t : Template) : Action Unit := do
  t.discard
  t.writeFiles

/-- The ways in which a build on a machine fails, each with its fault. -/
inductive Fails (t : Template) (w : Circumstances) (d : Place) (name : String) (m : Machine) :
    Fault → Prop
  | preparing {m' : Machine} {context : String} {e : Cause}
      (h : w.run m t.prepare.run = (m', some (.error (.files context e)))) :
      Fails t w d name m (.files context e)
  | command {files : Files} {fault : Fault}
      (h : w.run m t.prepare.run = (m.withFiles files, some (.ok ())))
      (hfresh : t.IsFresh d name files)
      (hfault : faultOf (w.command (m.withFiles files)).1 = some fault) : Fails t w d name m fault
  | marker {files : Files} {m' : Machine} {e : Cause}
      (h : w.run m t.prepare.run = (m.withFiles files, some (.ok ())))
      (hfresh : t.IsFresh d name files) (hnone : faultOf (w.command (m.withFiles files)).1 = none)
      (hmark : w.answer (t.ran w (m.withFiles files))
      (.writeFile t.marker m.today.offsetText.toUTF8) =
        some (m', .error e)) : Fails t w d name m (.files s!"writing {t.marker}" e)

section Steps

variable (hspares : w.Spares dir d name id) (hground : m.Ground dir d name id)
include hspares hground

theorem answer_writeFile (path : String) (bytes : ByteArray) :
    (∃ files, m.files.write m.cwd path bytes = .ok files ∧
    w.answer m (.writeFile path bytes) = some (m.withFiles files, .ok ())) ∨
    ∃ e files, files.Ground m.cwd dir d name id ∧
    w.answer m (.writeFile path bytes) = some (m.withFiles files, .error e) := by
  cases hbreaks : w.breaks m (.writeFile path bytes) with
  | some b =>
    refine .inr ⟨b.1, b.2, hspares.breaks m _ b.1 b.2 hbreaks hground, ?_⟩
    simp [Circumstances.answer, hbreaks]
  | none =>
    cases hw : m.files.write m.cwd path bytes with
    | ok files =>
      refine .inl ⟨files, rfl, ?_⟩
      simp [Circumstances.answer, hbreaks, answer?, changing, hw]
    | error e =>
      refine .inr ⟨e, m.files, hground, ?_⟩
      simp [Circumstances.answer, hbreaks, answer?, changing, hw, withFiles]

theorem answer_makeDirs {path : String} {files : Files} {r : Except Cause Unit}
    (hmade : m.files.makeDirs m.cwd path = (files, r))
    (hleft : files.Ground m.cwd dir d name id) :
    w.answer m (.makeDirs path) = some (m.withFiles files, .ok ()) ∨
    ∃ e files, files.Ground m.cwd dir d name id ∧
    w.answer m (.makeDirs path) = some (m.withFiles files, .error e) := by
  cases hbreaks : w.breaks m (.makeDirs path) with
  | some b =>
    refine .inr ⟨b.1, b.2, hspares.breaks m _ b.1 b.2 hbreaks hground, ?_⟩
    simp [Circumstances.answer, hbreaks]
  | none =>
    have hself : w.answer m (.makeDirs path) = some (m.withFiles files, r) := by
      simp [Circumstances.answer, hbreaks, answer?, changingPartly, hmade]
    cases r with
    | ok u => exact .inl hself
    | error e => exact .inr ⟨e, files, hleft, hself⟩

end Steps

section Building

variable (hstands : t.Stands dir name) (hspares : w.Spares dir d name id)
include hstands hspares

theorem run_makeParent (hground : m.Ground dir d name id) (hgone : m.files.Gone (d ++ [name])) :
    (∃ files, w.run m (makeParent t.sourcePath).run = (m.withFiles files, some (.ok ())) ∧
    files.Closed ∧
    m.files.Begun files (d ++ [name]) (steps (names t.sourceFile))) ∨ ∃ files context e,
    w.run m (makeParent t.sourcePath).run = (m.withFiles files, some (.error (.files context e))) ∧
    files.Ground m.cwd dir d name id := by
  unfold makeParent
  cases habove : parent? t.sourcePath with
  | none => exact .inl ⟨m.files, rfl, hground.closed, .inl rfl⟩
  | some above =>
    rw [sourcePath, hstands.root] at habove
    obtain ⟨hnames, hstart⟩ := above_inside hstands.fits.isName hstands.source.isRelative habove
    obtain ⟨hc, hb⟩ :=
      Files.Begun.makeDirs hground.toStead hgone hstands.fits hstands.source.down hnames hstart
    have hmade := Files.Begun.ground hgone hstands.fits hground hc hb
    rcases answer_makeDirs hspares hground rfl hmade with hok | ⟨e, files, hleft, herr⟩
    · exact .inl ⟨_, run_orFault _ (run_ask hok), hc, hb⟩
    · exact .inr ⟨files, _, e, run_orFault _ (run_ask herr), hleft⟩

/-- From nothing, the two files are written, or an operation fails on ground that can be cleared. -/
theorem run_writeFiles (hground : m.Ground dir d name id) (hgone : m.files.Gone (d ++ [name])) :
    (∃ files, w.run m t.writeFiles.run = (m.withFiles files, some (.ok ())) ∧
    files.Ground m.cwd dir d name id ∧ t.IsFresh d name files) ∨
    ∃ files context e, w.run m t.writeFiles.run =
    (m.withFiles files, some (.error (.files context e))) ∧ files.Ground m.cwd dir d name id := by
  unfold writeFiles
  rcases run_makeParent hstands hspares hground hgone with
    ⟨files, hrun, hc, hb⟩ | ⟨files, context, e, hrun, hleft⟩
  · rw [run_action_ok hrun]
    have hground₁ := Files.Begun.ground hgone hstands.fits hground hc hb
    rcases answer_writeFile (m := m.withFiles files) hspares hground₁ t.manifestPath
      t.manifest.toUTF8 with ⟨files₂, hw, hok⟩ | ⟨e, left, hleft, herr⟩
    · rw [run_action_ok (run_orFault _ (run_ask hok))]
      rw [manifestPath, hstands.root] at hw
      have hempty : files.Laid m.cwd dir d name id
          [steps (names t.manifestFile), steps (names t.sourceFile)] fun _ => none :=
        Files.Begun.laid_of_write hground hgone hstands.fits hc hb (by simp) hstands.manifest hw
      have hlaid := hempty.write hstands.fits hstands.manifest (by simp) hw
      rcases answer_writeFile (m := m.withFiles files₂) hspares hlaid.ground t.sourcePath
        t.source.toUTF8 with ⟨files₃, hw₃, hok₃⟩ | ⟨e, left, hleft, herr⟩
      · rw [sourcePath, hstands.root] at hw₃
        have hlaid₃ := hlaid.write hstands.fits hstands.source (by simp) hw₃
        exact .inl ⟨files₃, run_orFault _ (run_ask hok₃), hlaid₃.ground, hlaid₃.holds⟩
      · exact .inr ⟨left, _, e, run_orFault _ (run_ask herr), hleft⟩
    · exact .inr ⟨left, _, e, run_action_error (run_orFault _ (run_ask herr)) _, hleft⟩
  · exact .inr ⟨files, context, e, run_action_error hrun _, hleft⟩

/-- A build completes, or it fails on ground that can be cleared. -/
theorem run_build (hground : m.Ground dir d name id) :
    (∃ files marked, w.run m t.build.run = ((t.ran w (m.withFiles files)).withFiles marked,
    some (.ok ())) ∧
    w.run m t.prepare.run = (m.withFiles files, some (.ok ())) ∧ files.Ground m.cwd dir d name id ∧
    t.IsFresh d name files ∧ faultOf (w.command (m.withFiles files)).1 = none ∧
    (w.command (m.withFiles files)).2.write m.cwd t.marker m.today.offsetText.toUTF8 = .ok marked) ∨
    ∃ m' fault, w.run m t.build.run = (m', some (.error fault)) ∧ t.Fails w d name m fault ∧
    m'.files.Ground m.cwd dir d name id ∧
    m'.kernel = { m.kernel with files := m'.files } := by
  obtain ⟨cleared, hdiscard, hcleared, hgone⟩ := run_discard (w := w) hstands hground
  have hprepare : w.run m t.prepare.run = w.run (m.withFiles cleared) t.writeFiles.run := by
    rw [prepare, run_action_ok (run_lift hdiscard)]
  rw [build, run_action_ok (run_lift hdiscard)]
  rcases run_writeFiles (m := m.withFiles cleared) hstands hspares hcleared hgone with
    ⟨files, hrun, hground₁, hfresh⟩ | ⟨files, context, e, hrun, hleft⟩
  · have hwritten : w.run (m.withFiles cleared) t.writeFiles.run =
        (m.withFiles files, some (.ok ())) := hrun
    rw [hwritten] at hprepare
    have hran : w.run (m.withFiles files) (attempt (execute t.command t.buildTimeout)).run =
        (t.ran w (m.withFiles files), some (.ok (w.command (m.withFiles files)).1)) :=
      run_lift (run_ask rfl)
    have hground₂ := hspares.command (m.withFiles files) hground₁
    rw [run_action_ok hwritten, run_action_ok hran]
    cases hresult : (w.command (m.withFiles files)).1 with
    | error fault =>
      have hfault (f : Fault) (hf : faultOf (.error fault) = some f) : t.Fails w d name m f :=
        .command hprepare hfresh (hresult ▸ hf)
      cases fault <;> exact .inr ⟨t.ran w (m.withFiles files), _, rfl, hfault _ rfl, hground₂, rfl⟩
    | ok result =>
      by_cases hsucceeded : result.succeeded = true
      · have hnone : faultOf (w.command (m.withFiles files)).1 = none := by
          rw [hresult, faultOf, if_pos hsucceeded]
        simp only [hsucceeded, Bool.not_true, Bool.false_eq_true, if_false]
        rw [run_action_ok (run_lift (run_ask rfl))]
        rcases answer_writeFile (m := t.ran w (m.withFiles files)) hspares hground₂ t.marker
          m.today.offsetText.toUTF8 with ⟨marked, hw, hok⟩ | ⟨e, left, hleft, herr⟩
        · exact .inl ⟨files, marked, run_orFault _ (run_ask hok), hprepare, hground₁, hfresh, hnone,
            hw⟩
        exact .inr ⟨_, _, run_orFault _ (run_ask herr), .marker hprepare hfresh hnone herr, hleft,
          rfl⟩
      · have hfault : faultOf (w.command (m.withFiles files)).1 =
            some (.templateBuild result.combined) := by
          rw [hresult, faultOf, if_neg hsucceeded]
        simp only [hsucceeded, Bool.not_false, if_true]
        exact .inr ⟨t.ran w (m.withFiles files), _, rfl, .command hprepare hfresh hfault, hground₂,
          rfl⟩
  · exact .inr ⟨_, _, run_action_error hrun _, .preparing (hprepare.trans hrun), hleft, rfl⟩

end Building

/-- The ways in which a builder that has the lock leaves the machine it found, with its answer. -/
inductive Ends (t : Template) (w : Circumstances) (d : Place) (name : String) (m : Machine) :
    Machine → Except Fault Bool → Prop
  /-- Somebody else has built the template meanwhile. -/
  | spared (hready : m.files.isFile m.cwd t.marker = true) :
      Ends t w d name m m (.ok false)
  /-- The marker is still missing under the lock, so the directory is made anew and marked. -/
  | built {files marked : Files} (hmissing : m.files.isFile m.cwd t.marker = false)
      (h : w.run m t.prepare.run = (m.withFiles files, some (.ok ())))
      (hfresh : t.IsFresh d name files) (hnone : faultOf (w.command (m.withFiles files)).1 = none)
      (hmark : (w.command (m.withFiles files)).2.write m.cwd t.marker m.today.offsetText.toUTF8 =
        .ok marked) : Ends t w d name m ((t.ran w (m.withFiles files)).withFiles marked) (.ok true)
  | failed {m' : Machine} {fault : Fault}
      (hmissing : m.files.isFile m.cwd t.marker = false)
      (hfails : t.Fails w d name m fault) (hgone : m'.files.Gone (d ++ [name])) :
      Ends t w d name m m' (.error fault)

/-- Writing a file, wherever it is, leaves the lock file a file of its number. -/
theorem lock_of_write {fs fs' : Files} {cwd p : Place} {path : String} {bytes : ByteArray}
    (hlock : ∃ old mode, fs.get? p = some (.file id old mode))
    (hw : fs.write cwd path bytes = .ok fs') :
    ∃ old mode, fs'.get? p = some (.file id old mode) := by
  obtain ⟨old, mode, hold⟩ := hlock
  obtain ⟨target, -, ⟨i, was, mode', hsets, hcase⟩ | ⟨rfl, -⟩⟩ := edit_ok hw
  · by_cases hp : p = target.place
    · subst hp
      rw [hold] at hcase
      rcases hcase with hsame | ⟨hnone, -⟩
      · cases hsame
        exact ⟨_, _, by rw [hsets, if_pos rfl]⟩
      · cases hnone
    · exact ⟨old, mode, by rw [hsets, if_neg hp, hold]⟩
  · exact ⟨old, mode, hold⟩

theorem run_buildIfMissing (hstands : t.Stands dir name) (hspares : w.Spares dir d name id)
    (hground : m.Ground dir d name id) :
    ∃ m' r, w.run m t.buildIfMissing = (m', some r) ∧ t.Ends w d name m m' r ∧
      m'.kernel = { m.kernel with files := m'.files } ∧
      (∃ bytes mode, m'.files.get? (d ++ [name ++ ".lock"]) = some (.file id bytes mode)) ∧
      ∀ fault, r = .error fault → m'.files.Ground m.cwd dir d name id := by
  have hready : w.run m t.isReady = (m, some (m.files.isFile m.cwd t.marker)) := rfl
  rw [buildIfMissing, run_bind hready]
  cases hmarker : m.files.isFile m.cwd t.marker with
  | true =>
    exact ⟨m, .ok false, rfl, .spared hmarker, rfl, hground.lock, fun fault hr => by cases hr⟩
  | false =>
    simp only [Bool.false_eq_true, if_false]
    rcases run_build hstands hspares hground with
      ⟨files, marked, hrun, hprepare, hground₁, hfresh, hnone, hmark⟩ |
      ⟨m₁, fault, hrun, hfails, hleft, hkernel⟩
    · rw [run_bind hrun]
      have hlock := lock_of_write (hspares.command (m.withFiles files) hground₁).lock hmark
      exact ⟨_, .ok true, rfl, .built hmarker hprepare hfresh hnone hmark, rfl, hlock,
        fun fault hr => by cases hr⟩
    · rw [run_bind hrun]
      have hcwd : m₁.cwd = m.cwd := by rw [hkernel]
      rw [← hcwd] at hleft
      obtain ⟨files, hdiscard, hground', hgone⟩ := run_discard (w := w) hstands hleft
      refine ⟨m₁.withFiles files, .error fault, ?_, .failed hmarker hfails hgone, ?_, hground'.lock,
        fun _ _ => hcwd ▸ hground'⟩
      · exact run_bind hdiscard _
      · rw [withFiles, hkernel]

/-- The machine once a lock file has been emptied and let go. -/
def released (m : Machine) (handle id : Nat) : Machine :=
  { m with kernel := { m.kernel with files := m.files.editId id fun _ => .empty }.closeLock handle }

@[simp] theorem released_files (m : Machine) (handle id : Nat) :
    (released m handle id).files = m.files.editId id fun _ => .empty := rfl

/-- A lock that is owed is emptied and let go in the end. -/
theorem run_owing_lock {α : Type} {p : Program α} {a : α} {path : String} {handle : Nat}
    (hp : w.run m p = (m', some a)) (hfile : m'.kernel.fileOf handle = some id) :
    w.run m (owing (.lock path handle) p) = (released m' handle id, some a) := by
  have howe : w.run m (ask (.owe (.lock path handle))) = (m, some ()) := rfl
  have hsettle : w.run m' (ask .settle) = (m', some ()) := rfl
  have hmark : w.answer m' (.markLock handle .empty) =
      some ({ m' with kernel := { m'.kernel with files := m'.files.editId id fun _ => .empty } },
        .ok ()) := by
    have hself : m'.kernel.markLock handle .empty =
        .ok { m'.kernel with files := m'.files.editId id fun _ => .empty } := by
      rw [Kernel.markLock, hfile]
    simp only [Circumstances.answer, answer?, hself]
  have hpay : w.run m' (Debt.pay (.lock path handle)) = (released m' handle id, some ()) := by
    rw [Debt.pay, run_bind (run_ask hmark)]
    rfl
  rw [owing, run_bind howe, run_bind hp, run_bind hsettle, run_bind hpay]
  rfl

/-- A builder whose directory is gone and whose lock file is empty leaves nothing to wait for. -/
theorem runNow_state_gone (hstands : t.Stands dir name) (hground : m.Ground dir d name id)
    (hgone : m.files.Gone (d ++ [name])) {mode : Nat}
    (hempty : m.files.get? (d ++ [name ++ ".lock"]) = some (.file id .empty mode)) :
    m.runNow t.state = (m, some .missing) := by
  obtain ⟨way, links, hleads, -⟩ := hground.leads
  have hrelative : isAbsolute ".kiln-ready" = false := by decide
  have hmarker : m.files.isFile m.cwd t.marker = false := by
    rw [isFile, Files.find]
    cases hl : m.files.locate m.cwd true t.marker with
    | error e => rfl
    | ok target =>
      rw [marker, hstands.root] at hl
      obtain ⟨hplace, -⟩ := hgone.steps_eq_nil hground.toStead hstands.fits
        (names_inside hstands.fits.isName hrelative) (startOf_inside hstands.fits.isName hrelative)
        (by decide) hl
      have hnone : target.node = none := by rw [locate_node hl, hplace,
        hgone _ (List.prefix_refl _)]
      simp [hnone, Bind.bind, Except.bind]
  have hread : m.files.read m.cwd t.lockPath = .ok .empty := by
    have hl := hleads.locate_name hstands.fitsLock true (by simp [hempty])
    rw [hempty] at hl
    rw [Files.read, Files.find, hstands.lockPath, hl]
    rfl
  have hready : m.runNow t.isReady = (m, some false) := by
    rw [← hmarker]
    rfl
  have hheld : m.runNow t.isHeld = (m, some false) := by
    simp only [isHeld, readTextFile, readFile, ask, bind_call, bind_done, runNow, answer?,
      seeing, hread]
    rfl
  rw [state, runNow_bind_of_eq hready]
  simp only [Bool.false_eq_true, if_false]
  rw [runNow_bind_of_eq hheld]
  rfl

/-- A template that is ready is left alone. A builder that gets the lock finds it ready meanwhile,
or builds it anew, calling its command once, or fails with the fault of the step that failed and
leaves no directory. The lock file stays and is empty. -/
theorem ensure_clean_or_complete (hstands : t.Stands dir name) (hspares : w.Spares dir d name id) :
    (m.files.isFile m.cwd t.marker = true → w.run m t.ensure.run = (m, some (.ok false))) ∧
    ∀ m₁ handle, m.files.isFile m.cwd t.marker = false →
      w.run m t.acquire.run = (m₁, some (.ok (some handle))) → m₁.kernel.fileOf handle = some id →
      m₁.files.Ground m₁.cwd dir d name id →
      ∃ m₂ r, w.run m t.ensure.run = (released m₂ handle id, some r) ∧ t.Ends w d name m₁ m₂ r ∧
        (∃ mode, (released m₂ handle id).files.get? (d ++ [name ++ ".lock"]) =
          some (.file id .empty mode)) ∧
        ∀ fault, r = .error fault → (released m₂ handle id).files.Gone (d ++ [name]) ∧
          (released m₂ handle id).runNow t.state = (released m₂ handle id, some .missing) := by
  have hready : w.run m (liftM t.isReady : Action Bool).run =
      (m, some (.ok (m.files.isFile m.cwd t.marker))) := rfl
  refine ⟨fun hmarker => ?_, fun m₁ handle hmarker hacquire hfile hground => ?_⟩
  · rw [ensure, run_action_ok hready, hmarker]
    rfl
  obtain ⟨m₂, r, hrun, hends, hkernel, ⟨bytes, mode, hlock⟩, hleft⟩ :=
    run_buildIfMissing hstands hspares hground
  have hfile₂ : m₂.kernel.fileOf handle = some id := by
    rw [hkernel]
    exact hfile
  have hempty : (released m₂ handle id).files.get? (d ++ [name ++ ".lock"]) =
      some (.file id .empty mode) := by
    rw [released_files, Files.get?_editId, hlock]
    simp [Files.editNode]
  refine ⟨m₂, r, ?_, hends, ⟨mode, hempty⟩, fun fault hr => ?_⟩
  · rw [ensure, run_action_ok hready, hmarker]
    simp only [Bool.false_eq_true, if_false]
    rw [run_action_ok hacquire]
    exact run_owing_lock hrun hfile₂
  · have hground₂ := (hleft fault hr).editId id fun _ => .empty
    have hcwd : m₂.cwd = m₁.cwd := by rw [hkernel]
    rw [← hcwd] at hground₂
    have hgone : (released m₂ handle id).files.Gone (d ++ [name]) := by
      subst hr
      cases hends with
      | failed _ _ hgone =>
        intro q hq
        rw [released_files, Files.get?_editId, hgone q hq, Option.map_none]
    exact ⟨hgone, runNow_state_gone hstands hground₂ hgone hempty⟩

/-! ## Cases -/

/-- A template in the current directory. -/
def inPlace : Template :=
  { root := "t", lockPath := "t.lock", buildCommand := "make", buildArgs := [], env := [],
    manifestFile := "m"
    manifest := "a", sourceFile := "s", source := "b", buildTimeout := default, lockWait :=
      default }

/-- A command that succeeds and removes the lock file. -/
def lockRemoving : Circumstances where
  lock m := m
  command m := (.ok ⟨0, .empty, .empty⟩, m.files.erase ["t.lock"])
  breaks _ _ := none

/-- Nothing goes wrong. -/
def calm : Circumstances :=
  { lockRemoving with command := fun m => (.ok ⟨0, .empty, .empty⟩, m.files) }

/-- A command may remove the lock file, and then it is not there when the builder is done. A
manifest whose path leads out of the directory is not in it. -/
theorem ensure_lock_lost :
    (∃ m', lockRemoving.run .bare inPlace.ensure.run = (m', some (.ok true)) ∧
      m'.files.get? ["t.lock"] = none) ∧
    ∃ m', calm.run .bare ({ inPlace with manifestFile := "../m" } : Template).ensure.run =
    (m', some (.ok true)) ∧
      m'.files.namesAt ["t"] = ["s", ".kiln-ready"] := by
  refine ⟨⟨_, Prod.ext rfl ?_, Option.isNone_iff_eq_none.mp ?_⟩, _, Prod.ext rfl ?_, ?_⟩
  · decide +kernel
  · decide +kernel
  · decide +kernel
  · decide +kernel

/-- A disk on which nothing can be written. -/
def fullDisk : Circumstances where
  lock m := m
  command m := (.ok ⟨1, .empty, .empty⟩, m.files)
  breaks
    | m, .writeFile _ _ => some (.os 28, m.files)
    | _, _ => none

/-- A link to nowhere in place of the directory, and a lock file that somebody has left. -/
def strayFiles : Files :=
  (Machine.bare.files.put ["t"] (.link "gone")).put ["t.lock"]
    (.file 0 "7".toUTF8 Files.defaultMode)

theorem stands_inPlace : inPlace.Stands "" "t" := by
  refine ⟨by decide +kernel, by decide +kernel, ?_, ?_, ?_, ?_⟩
  · exact ⟨⟨by decide, by decide, by decide, by decide⟩, by decide, by decide, by decide, by decide⟩
  · exact ⟨⟨by decide, by decide, by decide, by decide⟩, by decide, by decide, by decide, by decide⟩
  · exact ⟨by decide, by decide, by decide⟩
  · exact ⟨by decide, by decide, by decide⟩

theorem spares_fullDisk : fullDisk.Spares "" [] "t" 0 := by
  refine ⟨fun m c e files hbreaks hground => ?_, fun m hground => hground⟩
  unfold fullDisk at hbreaks
  cases c with
  | writeFile path bytes =>
    cases hbreaks
    exact hground
  | _ => cases hbreaks

theorem ground_stray : strayFiles.Ground [] "" [] "t" 0 := by
  have hclosed : strayFiles.Closed := by
    intro q x n hn
    have hx : q ++ [x] = [] ++ ["t.lock"] ∨ q ++ [x] = [] ++ ["t"] := by
      by_contra hother
      rw [not_or, List.nil_append, List.nil_append] at hother
      rw [strayFiles, sets_put _ _ (by simp), if_neg hother.1, sets_put _ _ (by simp),
        if_neg hother.2, get?_of_ne _ (by simp)] at hn
      cases hn
    have hq : q = [] := by
      rcases hx with hx | hx
      · exact (List.append_inj' hx rfl).1
      · exact (List.append_inj' hx rfl).1
    subst hq
    exact ⟨_, rfl⟩
  refine ⟨⟨hclosed, [], maxLinks, ⟨⟨_, rfl⟩, .here _ _⟩, by simp [startOf]⟩, fun n hn => ?_,
    "7".toUTF8, defaultMode, rfl⟩
  cases hn
  exact .inr rfl

/-- The machine once a builder has the lock and has put its number into it. -/
def heldMachine : Machine :=
  { Machine.bare with
    kernel := { Machine.bare.kernel with
      files := strayFiles.editId 0 fun _ => "4711\n".toUTF8
      handles := [(1, some 0)]
      fresh := 2 } }

theorem run_acquire_stray : fullDisk.run (bare.withFiles strayFiles) inPlace.acquire.run =
    (heldMachine, some (.ok (some 1))) := by
  have hparent : parent? inPlace.lockPath = some "" := by decide +kernel
  have hdirs : fullDisk.run (bare.withFiles strayFiles) (makeParent inPlace.lockPath).run =
      (bare.withFiles strayFiles, some (.ok ())) := by
    rw [makeParent, hparent]
    rfl
  obtain ⟨way, links, hleads, -⟩ := ground_stray.leads
  have hlocate : strayFiles.locate [] true "t.lock" =
      .ok ⟨["t.lock"], some (.file 0 "7".toUTF8 defaultMode), false⟩ :=
    hleads.locate_name stands_inPlace.fitsLock true fun _ target hlink => by cases hlink
  have hopen : fullDisk.answer (bare.withFiles strayFiles) (.openLock inPlace.lockPath) =
      some ({ bare with kernel := { bare.kernel with
        files := strayFiles, handles := [(1, some 0)], fresh := 2 } }, .ok 1) := by
    have hself : (bare.withFiles strayFiles).kernel.openLock inPlace.lockPath =
        .ok (1, { bare.kernel with files := strayFiles, handles := [(1, some 0)], fresh := 2 })
          := by
      have hwriting : strayFiles.openForWriting [] "t.lock" =
          .ok (strayFiles, ["t.lock"], .file 0 "7".toUTF8 defaultMode) := by
        rw [openForWriting, hlocate]
        rfl
      exact congrArg (· >>= _) hwriting
    simp only [Circumstances.answer, answer?, hself]
    rfl
  rw [acquire, run_action_ok hdirs, run_action_ok (run_orFault _ (run_ask hopen))]
  rfl

/-- On a full disk a builder fails; the stray link is gone and the lock file empty. -/
theorem ensure_clean_or_complete_full :
    fullDisk.run (Machine.bare.withFiles strayFiles) inPlace.acquire.run =
    (heldMachine, some (.ok (some 1))) ∧ heldMachine.files.Ground [] "" [] "t" 0 ∧
    ∃ m₂ r, fullDisk.run (Machine.bare.withFiles strayFiles) inPlace.ensure.run =
    (released m₂ 1 0, some r) ∧
      inPlace.Ends fullDisk [] "t" heldMachine m₂ r ∧
      (∃ mode, (released m₂ 1 0).files.get? ["t.lock"] = some (.file 0 .empty mode)) ∧
      ∀ fault, r = .error fault → (released m₂ 1 0).files.Gone ["t"] ∧
        (released m₂ 1 0).runNow inPlace.state = (released m₂ 1 0, some .missing) := by
  have hground : heldMachine.files.Ground [] "" [] "t" 0 := ground_stray.editId 0 _
  have hmarker : strayFiles.isFile [] inPlace.marker = false := by decide +kernel
  exact ⟨run_acquire_stray, hground,
    (ensure_clean_or_complete stands_inPlace spares_fullDisk).2 heldMachine 1 hmarker
    run_acquire_stray rfl hground⟩

end Template

end Foundry
