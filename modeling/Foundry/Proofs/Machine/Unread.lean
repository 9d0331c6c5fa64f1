import Foundry.Proofs.Files.Contents
import Foundry.Proofs.Machine.Groups
import Foundry.Proofs.Service.Balance

/-!
# Files that nobody reads

Of two machines one has more in some of its files, other samples of one name and other
warnings. As long as nobody reads those files, the background jobs of both do the same, and
the machines stay as alike as they were.
-/

namespace Foundry

open Program List Kernel

/-- Calls that do not look into files. -/
def Call.IsHeedless : Call → Prop
  | .isFile _ | .makeDirs _ | .removeTree _ | .writeFile .. | .appendFile .. => True
  | .openLock _ | .lock .. | .markLock .. | .closeLock _ => True
  | .clock | .today | .ownPid | .record .. | .warn .. | .owe _ | .settle | .run .. => True
  | _ => False

/-- A task that goes on without a look into files. -/
def Task.IsHeedless {α : Type} (t : Task α) : Prop :=
  ∃ p, t.phase.Awaits p ∧ p.Only Call.IsHeedless

/-- Under every name but one there are the same samples. -/
def Metrics.AgreeBut (name : String) (a b : Metrics) : Prop :=
  b.capacity = a.capacity ∧ ∀ other, other ≠ name → b.samples other = a.samples other

variable {name : String} {a b : Metrics}

theorem Metrics.AgreeBut.record (h : a.AgreeBut name b) (operation : String) (elapsed : Duration) :
    (a.record operation elapsed).AgreeBut name (b.record operation elapsed) := by
  refine ⟨h.1, fun other hother => ?_⟩
  rw [samples_record, samples_record]
  split
  · rename_i heq
    rw [h.1, h.2 operation (heq ▸ hother)]
  · exact h.2 other hother

theorem Metrics.agreeBut_record (h : a.AgreeBut name b) (elapsed : Duration) :
    a.AgreeBut name (b.record name elapsed) := by
  refine ⟨h.1, fun other hother => ?_⟩
  rw [samples_record, if_neg hother]
  exact h.2 other hother

namespace Kernel

variable {free : Nat → Bool} {κ : Kernel} {fs : Files}

/-- The same kernel with other files. -/
def withFiles (κ : Kernel) (files : Files) : Kernel := { κ with files }

theorem signal_withFiles (κ : Kernel) (pid number : Nat) (fs : Files) :
    (κ.withFiles fs).signal pid number =
    { κ with files := fs, processes := (κ.signal pid number).processes } := by
  unfold signal withFiles
  cases κ.processes.lookup pid with
  | none => rfl
  | some p =>
    dsimp only
    split
    · rfl
    split
    · rfl
    split
    · rfl
    split <;> rfl

/-- Signals do nothing but to processes, whatever is in the files. -/
theorem signalGroup_withFiles (κ : Kernel) (group number : Nat) (fs : Files) :
    (κ.withFiles fs).signalGroup group number =
    { κ with files := fs, processes := (κ.signalGroup group number).processes } := by
  have hall (targets : List (Nat × ProcessEntry)) (κ : Kernel) :
      targets.foldl (fun κ p => κ.signal p.1 number) (κ.withFiles fs) =
        { κ with
          files := fs
          processes := (targets.foldl (fun κ p => κ.signal p.1 number) κ).processes } := by
    induction targets generalizing κ with
    | nil => rfl
    | cons target targets ih =>
      have hself : κ.signal target.1 number =
          { κ with processes := (κ.signal target.1 number).processes } :=
        κ.signal_withFiles target.1 number κ.files
      rw [foldl_cons, foldl_cons, signal_withFiles, hself]
      exact ih { κ with processes := (κ.signal target.1 number).processes }
  exact hall (κ.processes.filter fun p => p.2.group = group) κ

/-- No stream is open on a free file. -/
def Unopened (κ : Kernel) (free : Nat → Bool) : Prop :=
  ∀ stream id position appending, κ.streams.lookup stream = some (.file id position appending) →
    free id = false

theorem peek_withFiles (hopen : κ.Unopened free) (hfiles : κ.files.Grown free fs) (stream : Nat) :
    (κ.withFiles fs).peek stream = κ.peek stream := by
  unfold peek withFiles
  cases hs : κ.streams.lookup stream with
  | none => rfl
  | some s =>
    cases s with
    | file id position appending =>
      dsimp only
      rw [hfiles.contents? (hopen _ _ _ _ hs)]
    | pipe n writing => cases writing <;> rfl
    | _ => rfl

theorem Unopened.addStream (h : κ.Unopened free) {s : Stream}
    (hs : ∀ id position appending, s = .file id position appending → free id = false) :
    (κ.addStream s).2.Unopened free := by
  intro stream id position appending hfile
  by_cases hn : stream = κ.fresh
  · simp only [Kernel.addStream, takeFresh, hn, lookup_cons_self, Option.some.injEq] at hfile
    exact hs _ _ _ hfile
  have hb : (stream == κ.fresh) = false := by simpa using hn
  simp only [Kernel.addStream, takeFresh, lookup_cons, hb] at hfile
  exact h _ _ _ _ hfile

theorem Unopened.makePipe (h : κ.Unopened free) : κ.makePipe.2.2.Unopened free := by
  have hpipe :
      ({ κ.takeFresh.2 with pipes := (κ.fresh, .empty) :: κ.pipes } : Kernel).Unopened free := h
  have hread := hpipe.addStream (s := .pipe κ.fresh false) (by simp)
  exact hread.addStream (s := .pipe κ.fresh true) (by simp)

theorem openLock_withFiles (hfiles : κ.files.Grown free fs) (path : String) :
    Alike (fun o o' => o'.1 = o.1 ∧ o.2.streams = κ.streams ∧
    ∃ fs', o'.2 = o.2.withFiles fs' ∧ o.2.files.Grown free fs') (κ.openLock path)
    ((κ.withFiles fs).openLock path) := by
  refine (hfiles.openForWriting κ.cwd path).bind fun o o' ho => ?_
  obtain ⟨fs₁, p, n⟩ := o
  obtain ⟨fs₁', p', n'⟩ := o'
  obtain ⟨hgrown, -, hn, -⟩ := ho
  cases hn <;> exact .ok ⟨rfl, rfl, fs₁', rfl, hgrown⟩

theorem markLock_withFiles (hfiles : κ.files.Grown free fs) (handle : Nat) (bytes : ByteArray) :
    Alike (fun κ₁ κ₂ => κ₁.streams = κ.streams ∧ ∃ fs', κ₂ = κ₁.withFiles fs' ∧
    κ₁.files.Grown free fs')
    (κ.markLock handle bytes) ((κ.withFiles fs).markLock handle bytes) := by
  have hsame : (κ.withFiles fs).fileOf handle = κ.fileOf handle := rfl
  unfold markLock
  rw [hsame]
  cases κ.fileOf handle with
  | none => exact .error _
  | some id => exact .ok ⟨rfl, _, rfl, hfiles.editId id bytes⟩

theorem tryLock_withFiles (κ : Kernel) (fs : Files) (handle : Nat) :
    (κ.withFiles fs).tryLock handle = (κ.tryLock handle).map (·.withFiles fs) := by
  have hsame : (κ.withFiles fs).fileOf handle = κ.fileOf handle := rfl
  unfold tryLock
  rw [hsame]
  cases κ.fileOf handle with
  | none => rfl
  | some id =>
    dsimp only [withFiles]
    cases κ.locks.lookup id <;> rfl

theorem tryLock_ok {κ' : Kernel} {handle : Nat} (h : κ.tryLock handle = some κ') :
    κ'.streams = κ.streams ∧ κ'.files = κ.files := by
  unfold tryLock at h
  split at h
  · cases h
    exact ⟨rfl, rfl⟩
  split at h
  · cases h
  cases h
  exact ⟨rfl, rfl⟩

end Kernel

namespace Machine

variable {free : Nat → Bool} {name : String} {m m' : Machine} {α : Type} {t : Task α}

/-- Nobody on the machine looks into free files. -/
structure Ignores (m : Machine) (free : Nat → Bool) : Prop where
  unopened : m.kernel.Unopened free
  launch : ∀ (κ : Kernel) (fs fs' : Files) (command : Command), fs.Grown free fs' →
    m.launch (κ.withFiles fs') command = m.launch (κ.withFiles fs) command
  jobs : ∀ j ∈ m.jobs, j.task.IsHeedless

/-- A machine that nobody can tell from another who does not look into free files, at the samples
of one name or at warnings. -/
inductive SameBut (free : Nat → Bool) (name : String) (m : Machine) : Machine → Prop
  | intro {fs : Files} {metrics : Metrics} {calls : List RunnerCall}
      {warnings : List (String × List (String × String))} (ignores : m.Ignores free)
      (files : m.files.Grown free fs) (samples : m.metrics.AgreeBut name metrics)
      (commands : calls.map (fun c => (c.command, c.timeout)) =
        m.calls.map fun c => (c.command, c.timeout)) :
      SameBut free name m { m with kernel := m.kernel.withFiles fs, metrics, calls, warnings }

/-- Two machines with what they answer: nobody can tell one from the other, and the answers are the
same. -/
def Agree (free : Nat → Bool) (name : String) {β : Type} (x y : Machine × β) : Prop :=
  y.2 = x.2 ∧ x.1.SameBut free name y.1

namespace SameBut

variable (h : m.SameBut free name m')
include h

theorem ignores : m.Ignores free := by
  cases h with
  | intro ignores => exact ignores

theorem tick (nanos : Nat) :
    ({ m with kernel := m.kernel.tick nanos } : Machine).SameBut free name
      { m' with kernel := m'.kernel.tick nanos } := by
  cases h with
  | intro ignores files samples commands =>
    exact .intro ⟨ignores.unopened, ignores.launch, ignores.jobs⟩ files samples commands

theorem files : m.files.Grown free m'.files := by
  cases h with
  | intro _ files => exact files

theorem kernel_eq : m'.kernel = m.kernel.withFiles m'.files := by
  cases h with
  | intro => rfl

theorem withKernel {κ : Kernel} {fs : Files}
    (hstreams : κ.streams = m.streams) (hfiles : κ.files.Grown free fs) :
    ({ m with kernel := κ } : Machine).SameBut free name { m' with kernel := κ.withFiles fs } := by
  cases h with
  | intro ignores _ samples commands =>
    refine .intro ⟨?_, ignores.launch, ignores.jobs⟩ hfiles samples commands
    unfold Kernel.Unopened
    rw [hstreams]
    exact ignores.unopened

theorem withFiles {fs fs' : Files} (hfiles : fs.Grown free fs') :
    (m.withFiles fs).SameBut free name (m'.withFiles fs') := by
  rw [Machine.withFiles, Machine.withFiles, h.kernel_eq]
  exact h.withKernel rfl hfiles

theorem cwd : m'.cwd = m.cwd := by
  cases h with
  | intro => rfl

theorem changing {f g : Files → Place → Except Cause Files}
    (hf : Alike (Files.Grown free) (f m.files m.cwd) (g m'.files m.cwd)) :
    Agree free name (m.changing f) (m'.changing g) := by
  unfold Machine.changing
  rw [h.cwd]
  generalize f m.files m.cwd = x at hf
  generalize g m'.files m.cwd = x' at hf
  cases hf with
  | error e => exact ⟨rfl, h⟩
  | ok hfiles => exact ⟨rfl, h.withFiles hfiles⟩

theorem changingPartly {f : Files → Place → Files × Except Cause Unit}
    (hf : (f m.files m.cwd).1.Grown free (f m'.files m.cwd).1 ∧
    (f m'.files m.cwd).2 = (f m.files m.cwd).2) :
    Agree free name (m.changingPartly f) (m'.changingPartly f) := by
  unfold Machine.changingPartly
  rw [h.cwd]
  exact ⟨hf.2, h.withFiles hf.1⟩

/-- Who does not look into files hears the same. -/
theorem answer? {c : Call} (hc : c.IsHeedless) (hprompt : c.waits = false) :
    ∃ x y, m.answer? c = some x ∧ m'.answer? c = some y ∧ Agree free name x y := by
  have hfiles := h.files
  cases c with
  | isFile path =>
    refine ⟨_, _, rfl, rfl, ?_, h⟩
    rw [seeing, seeing, h.cwd, hfiles.isFile]
  | makeDirs path => exact ⟨_, _, rfl, rfl, h.changingPartly (hfiles.makeDirs m.cwd path)⟩
  | removeTree path => exact ⟨_, _, rfl, rfl, h.changingPartly (hfiles.removeTree m.cwd path)⟩
  | writeFile path bytes => exact ⟨_, _, rfl, rfl, h.changing (hfiles.write bytes)⟩
  | appendFile path bytes => exact ⟨_, _, rfl, rfl, h.changing (hfiles.append bytes)⟩
  | openLock path =>
    have hopens := openLock_withFiles hfiles path
    rw [← h.kernel_eq] at hopens
    simp only [Machine.answer?]
    generalize m.kernel.openLock path = x at hopens ⊢
    generalize m'.kernel.openLock path = x' at hopens ⊢
    cases hopens with
    | error e => exact ⟨_, _, rfl, rfl, rfl, h⟩
    | @ok o o' ho =>
      obtain ⟨handle, κ⟩ := o
      obtain ⟨handle', κ'⟩ := o'
      dsimp only at ho
      obtain ⟨rfl, hstreams, fs, rfl, hgrown⟩ := ho
      exact ⟨_, _, rfl, rfl, rfl, h.withKernel hstreams hgrown⟩
  | markLock handle bytes =>
    have hmarks := markLock_withFiles hfiles handle bytes
    rw [← h.kernel_eq] at hmarks
    simp only [Machine.answer?]
    generalize m.kernel.markLock handle bytes = x at hmarks ⊢
    generalize m'.kernel.markLock handle bytes = x' at hmarks ⊢
    cases hmarks with
    | error e => exact ⟨_, _, rfl, rfl, rfl, h⟩
    | ok hmarks =>
      obtain ⟨hstreams, fs, rfl, hgrown⟩ := hmarks
      exact ⟨_, _, rfl, rfl, rfl, h.withKernel hstreams hgrown⟩
  | closeLock | clock | today | ownPid | warn =>
    cases h with
    | intro ignores files samples commands =>
      exact ⟨_, _, rfl, rfl, rfl,
        .intro ⟨ignores.unopened, ignores.launch, ignores.jobs⟩ files samples commands⟩
  | record operation elapsed =>
    cases h with
    | intro ignores files samples commands =>
      exact ⟨_, _, rfl, rfl, rfl, .intro ⟨ignores.unopened, ignores.launch, ignores.jobs⟩ files
        (samples.record operation elapsed) commands⟩
  | owe | settle => exact ⟨_, _, rfl, rfl, rfl, h⟩
  | lock | run => cases hprompt
  | _ => exact hc.elim

theorem reap (child : Child) : (m.reap child).SameBut free name (m'.reap child) := by
  have hself := m.kernel.signalGroup_withFiles child.pid sigKill m.files
  have hother := m.kernel.signalGroup_withFiles child.pid sigKill m'.files
  change m.kernel.signalGroup child.pid sigKill = _ at hself
  rw [← h.kernel_eq] at hother
  unfold Machine.reap
  rw [hself, hother]
  exact h.withKernel rfl h.files

theorem collected? (child : Child) : m'.collected? child = m.collected? child := by
  cases h with
  | intro ignores files samples commands =>
    have hpeek := peek_withFiles ignores.unopened files
    simp only [Machine.collected?, hpeek]
    rfl

theorem addCall (command : Command) (timeout : Duration) :
    (m.addCall command timeout).SameBut free name (m'.addCall command timeout) := by
  cases h with
  | intro ignores files samples commands =>
    exact .intro ⟨ignores.unopened, ignores.launch, ignores.jobs⟩ files samples
      (by simp [Machine.addCall, commands])

theorem spawn (command : Command) (timeout : Duration) :
    (∃ e, m.spawn command timeout = .error e ∧ m'.spawn command timeout = .error e) ∨
    ∃ x y, m.spawn command timeout = .ok x ∧ m'.spawn command timeout = .ok y ∧
    Agree free name x y := by
  cases h with
  | @intro fs _ _ _ ignores files samples commands =>
    have hlaunch : m.launch (m.kernel.withFiles fs) command = m.launch m.kernel command :=
      ignores.launch m.kernel m.files fs command files
    simp only [Machine.spawn, hlaunch]
    cases m.launch m.kernel command with
    | error e => exact .inl ⟨e, rfl, rfl⟩
    | ok start =>
      have hstreams := (ignores.unopened.addStream (s := .null) (by simp)).makePipe.makePipe
      exact .inr ⟨_, _, rfl, rfl, rfl,
        .intro ⟨hstreams, ignores.launch, ignores.jobs⟩ files samples commands⟩

theorem runner_eq : m'.runner = m.runner := by
  cases h with
  | intro => rfl

theorem startCommand (command : Command) (timeout : Duration)
    (next : Except Fault CommandResult → Program α) :
    Agree free name (m.startCommand command timeout next)
    (m'.startCommand command timeout next) := by
  have hcalled := h.addCall command timeout
  unfold Machine.startCommand
  rw [h.runner_eq]
  cases m.runner with
  | scripted reactions =>
    cases h with
    | intro ignores files samples commands =>
      refine ⟨rfl, .intro ⟨ignores.unopened, ignores.launch, ignores.jobs⟩
        (Reaction.grown_apply _ files _ _) samples ?_⟩
      simp [Machine.addCall, Machine.withFiles, commands]
  | processes =>
    dsimp only
    rcases hcalled.spawn command timeout with ⟨e, hs, hs'⟩ | ⟨x, y, hs, hs', hchild, hsame⟩
    · rw [hs, hs']
      exact ⟨rfl, hcalled⟩
    rw [hs, hs']
    exact ⟨congrArg (Phase.running · next) hchild, hsame⟩

theorem begin_ {c : Call} (hc : c.IsHeedless) (next : c.Reply → Program α) :
    Agree free name (m.begin_ t c next) (m'.begin_ t c next) := by
  cases c with
  | lock handle wait =>
    cases h with
    | intro ignores files samples commands => exact ⟨rfl, .intro ignores files samples commands⟩
  | run command timeout =>
    obtain ⟨hphase, hsame⟩ := h.startCommand command timeout next
    exact ⟨congrArg (fun phase => { t with phase }) hphase, hsame⟩
  | owe | settle => exact ⟨rfl, h⟩
  | isFile | makeDirs | removeTree | writeFile | appendFile | openLock | markLock | closeLock
  | clock | today | ownPid | record | warn =>
    obtain ⟨x, y, hx, hy, hsame, hagree⟩ := h.answer? hc rfl
    simp only [Machine.begin_, hx, hy]
    exact ⟨by rw [hsame], hagree⟩
  | _ => exact hc.elim

theorem isCancelled (t : Task α) : m'.isCancelled t = m.isCancelled t := by
  cases h with
  | intro => rfl

theorem jobResult? (job : Nat) : m'.jobResult? job = m.jobResult? job := by
  cases h with
  | intro => rfl

theorem now : m'.now = m.now := by
  cases h with
  | intro => rfl

/-- A task that does not look into files takes the same step on both machines. -/
theorem stepTask (ht : t.IsHeedless) :
    Option.Rel (Agree free name) (m.stepTask t) (m'.stepTask t) := by
  obtain ⟨p, hawaits, hp⟩ := ht
  have htick := h.tick callCost
  unfold Machine.stepTask
  generalize ({ m with kernel := m.kernel.tick callCost } : Machine) = n at htick ⊢
  generalize ({ m' with kernel := m'.kernel.tick callCost } : Machine) = n' at htick ⊢
  cases hphase : t.phase with
  | ended a => exact .none
  | ready q =>
    rw [hphase] at hawaits
    cases hawaits
    cases p with
    | done a => exact .some ⟨rfl, htick⟩
    | call c next => exact .some (htick.begin_ (obeys_call.mp hp).1 next)
  | resting until_ q =>
    dsimp only
    rw [htick.now]
    split
    · exact .some ⟨rfl, htick⟩
    · exact .none
  | locking handle until_ next =>
    dsimp only
    rw [htick.now, htick.kernel_eq, tryLock_withFiles]
    cases hlock : n.kernel.tryLock handle with
    | some κ =>
      obtain ⟨hstreams, hfiles⟩ := tryLock_ok hlock
      exact .some ⟨rfl, htick.withKernel hstreams (hfiles ▸ htick.files)⟩
    | none =>
      dsimp only [Option.map]
      split
      · exact .some ⟨rfl, htick⟩
      · exact .none
  | running child next =>
    dsimp only
    rw [htick.collected?, htick.isCancelled, htick.now]
    cases n.collected? child with
    | some result => exact .some ⟨rfl, htick.reap child⟩
    | none =>
      dsimp only
      split
      · exact .some ⟨rfl, htick.reap child⟩
      split
      · exact .some ⟨rfl, htick.reap child⟩
      · exact .none
  | awaiting job deadline next =>
    rw [hphase] at hawaits
    cases hawaits
    exact (obeys_call.mp hp).1.elim
  | interruptible next =>
    rw [hphase] at hawaits
    cases hawaits
    exact (obeys_call.mp hp).1.elim

end SameBut

/-! ## Background jobs -/

theorem isHeedless_stepTask {t' : Task α} (ht : t.IsHeedless) (h : m.stepTask t = some (m', t')) :
    t'.IsHeedless := by
  obtain ⟨p, hawaits, hp⟩ := ht
  obtain ⟨-, p', es, hawaits', hadvances⟩ := stepTask_cases h hawaits
  cases hadvances with
  | same => exact ⟨p, hawaits', hp⟩
  | reply next r => exact ⟨next r, hawaits', (obeys_call.mp hp).2 r trivial⟩

theorem SameBut.stepJobs (h : m.SameBut free name m') {jobs : List Job}
    (hjobs : ∀ j ∈ jobs, j.task.IsHeedless) : Agree free name (m.stepJobs jobs) (m'.stepJobs jobs) ∧
    ∀ j ∈ (m.stepJobs jobs).2.1, j.task.IsHeedless := by
  induction jobs generalizing m m' with
  | nil => exact ⟨⟨rfl, h⟩, hjobs⟩
  | cons job rest ih =>
    obtain ⟨hjob, hrest⟩ := forall_mem_cons.mp hjobs
    have hstep := h.stepTask hjob
    have hheedless {x : Machine × Task (Except Fault Bool)} (hx : m.stepTask job.task = some x) :
        x.2.IsHeedless := isHeedless_stepTask hjob hx
    simp only [Machine.stepJobs]
    generalize m.stepTask job.task = next at hstep hheedless
    generalize m'.stepTask job.task = next' at hstep
    cases hstep with
    | none =>
      obtain ⟨⟨hsame, hagree⟩, hleft⟩ := ih h hrest
      exact ⟨⟨by simp only [hsame], hagree⟩, forall_mem_cons.mpr ⟨hjob, hleft⟩⟩
    | some hagree =>
      obtain ⟨⟨hsame, hrests⟩, hleft⟩ := ih hagree.2 hrest
      exact ⟨⟨by simp only [hagree.1, hsame], hrests⟩, forall_mem_cons.mpr ⟨hheedless rfl, hleft⟩⟩

/-- Every background job takes a step. -/
def turnJobs (m : Machine) : Machine :=
  let (m, jobs, _) := m.stepJobs m.jobs
  { m with jobs := jobs ++ m.jobs.drop jobs.length }

/-- The jobs of both machines take the same steps. -/
theorem SameBut.turnJobs (h : m.SameBut free name m') :
    m.turnJobs.SameBut free name m'.turnJobs := by
  have hsame : m'.jobs = m.jobs := by
    cases h with
    | intro => rfl
  obtain ⟨⟨hstepped, hstep⟩, hjobs⟩ := h.stepJobs h.ignores.jobs
  unfold Machine.turnJobs
  rw [hsame]
  generalize m.stepJobs m.jobs = x at hstepped hstep hjobs ⊢
  generalize m'.stepJobs m.jobs = y at hstepped hstep ⊢
  obtain ⟨n, jobs, progress⟩ := x
  obtain ⟨n', jobs', progress'⟩ := y
  cases hstepped
  cases hstep with
  | intro ignores files samples commands =>
    refine .intro ⟨ignores.unopened, ignores.launch, fun j hj => ?_⟩ files samples commands
    rcases mem_append.mp hj with hj | hj
    · exact hjobs j hj
    · exact ignores.jobs j (mem_of_mem_drop hj)

end Machine

end Foundry
