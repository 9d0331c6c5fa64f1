import Foundry.Machine.Schedule
import Foundry.Proofs.Service.Ledger

/-!
# Groups of processes

A command runs in a group of processes of its own. A task that goes on from a command kills
its group, and so does whoever abandons the task meanwhile. So once a task is abandoned, no
process of any command that it ever started is left running.
-/

namespace Foundry

open List Kernel

namespace Kernel

variable {k k' k'' : Kernel}

/-- No process of the group is running. -/
def HasEnded (k : Kernel) (group : Nat) : Prop :=
  ∀ pid p, k.processes.lookup pid = some p → p.group = group → p.ending.isSome = true

/-- The number that the next process would get at the earliest. -/
def nextPid (k : Kernel) : Nat := k.ownPid + k.fresh

/-- Nothing is added to the table of processes but endings. -/
def OnlyEnds (k k' : Kernel) : Prop :=
  ∀ pid p', k'.processes.lookup pid = some p' →
    ∃ p, k.processes.lookup pid = some p ∧ p.group = p'.group ∧
      (p.ending.isSome = true → p'.ending.isSome = true)

/-- Numbers are not given twice, and groups that have ended stay so. -/
structure LetsRest (k k' : Kernel) : Prop where
  nextPid_le : k.nextPid ≤ k'.nextPid
  ended : ∀ group, group < k.nextPid → k.HasEnded group → k'.HasEnded group

theorem OnlyEnds.refl (k : Kernel) : k.OnlyEnds k := fun _ p' h => ⟨p', h, rfl, id⟩

theorem OnlyEnds.trans (h : k.OnlyEnds k') (h' : k'.OnlyEnds k'') : k.OnlyEnds k'' := by
  intro pid p'' hp''
  obtain ⟨p', hp', hgroup', hending'⟩ := h' pid p'' hp''
  obtain ⟨p, hp, hgroup, hending⟩ := h pid p' hp'
  exact ⟨p, hp, hgroup.trans hgroup', hending' ∘ hending⟩

theorem onlyEnds_of_eq (h : k'.processes = k.processes) : k.OnlyEnds k' := by
  intro pid p' hp'
  rw [h] at hp'
  exact ⟨p', hp', rfl, id⟩

theorem HasEnded.of_onlyEnds {group : Nat} (hended : k.HasEnded group) (h : k.OnlyEnds k') :
    k'.HasEnded group := by
  intro pid p' hp' hgroup'
  obtain ⟨p, hp, hgroup, hending⟩ := h pid p' hp'
  exact hending (hended pid p hp (hgroup.trans hgroup'))

theorem OnlyEnds.letsRest (h : k.OnlyEnds k') (hnext : k.nextPid ≤ k'.nextPid) : k.LetsRest k' :=
  ⟨hnext, fun _ _ hended => hended.of_onlyEnds h⟩

theorem LetsRest.trans (h : k.LetsRest k') (h' : k'.LetsRest k'') : k.LetsRest k'' := by
  refine ⟨h.nextPid_le.trans h'.nextPid_le, fun group hgroup hended => ?_⟩
  exact h'.ended group (hgroup.trans_le h.nextPid_le) (h.ended group hgroup hended)

/-! ## Changes to the table -/

theorem lookup_setProcess (k : Kernel) (pid q : Nat) (f : ProcessEntry → ProcessEntry) :
    (k.setProcess pid f).processes.lookup q =
    if q = pid then (k.processes.lookup q).map f else k.processes.lookup q := by
  have hlist (l : List (Nat × ProcessEntry)) :
      (l.map fun p => if p.1 = pid then (pid, f p.2) else p).lookup q =
        if q = pid then (l.lookup q).map f else l.lookup q := by
    induction l with
    | nil => simp
    | cons e rest ih =>
      obtain ⟨n, entry⟩ := e
      by_cases hn : n = pid
      · subst hn
        by_cases hq : q = n
        · subst hq
          simp
        have hqn : (q == n) = false := by simpa using hq
        simpa [lookup_cons, hqn, hq] using ih
      · by_cases hq : q = n
        · subst hq
          simp [hn]
        have hqn : (q == n) = false := by simpa using hq
        simpa [lookup_cons, hn, hqn] using ih
  exact hlist k.processes

theorem onlyEnds_setProcess (k : Kernel) (pid : Nat) {f : ProcessEntry → ProcessEntry}
    (hgroup : ∀ p, (f p).group = p.group)
    (hending : ∀ p, p.ending.isSome = true → (f p).ending.isSome = true) :
    k.OnlyEnds (k.setProcess pid f) := by
  intro q p' hp'
  rw [lookup_setProcess] at hp'
  split at hp'
  · obtain ⟨p, hp, rfl⟩ := Option.map_eq_some_iff.mp hp'
    exact ⟨p, hp, (hgroup p).symm, hending p⟩
  · exact ⟨p', hp', rfl, id⟩

theorem onlyEnds_endProcess (k : Kernel) (pid : Nat) (ending : Ending) :
    k.OnlyEnds (k.endProcess pid ending) := by
  apply onlyEnds_setProcess
  · intro p
    split <;> rfl
  intro p hp
  split
  · rfl
  · exact hp

theorem onlyEnds_close (k : Kernel) (pid stream : Nat) : k.OnlyEnds (k.close pid stream) :=
  onlyEnds_setProcess k pid (fun _ => rfl) fun _ h => h

/-- A process that is killed has ended. -/
theorem onlyEnds_kill (k : Kernel) (pid : Nat) : k.OnlyEnds (k.signal pid sigKill) ∧
    ∀ p, (k.signal pid sigKill).processes.lookup pid = some p → p.ending.isSome = true := by
  unfold signal
  cases hp : k.processes.lookup pid with
  | none =>
    refine ⟨OnlyEnds.refl k, fun p h => ?_⟩
    rw [hp] at h
    cases h
  | some entry =>
    by_cases hended : entry.ending.isSome = true
    · simp only [hended, if_true]
      refine ⟨OnlyEnds.refl k, fun p h => ?_⟩
      rw [hp] at h
      cases h
      exact hended
    · simp only [hended, Bool.false_eq_true, if_false, if_true]
      refine ⟨onlyEnds_endProcess k pid _, fun p h => ?_⟩
      rw [endProcess, lookup_setProcess, if_pos rfl, hp] at h
      cases h
      have hnone : entry.ending.isNone = true := by simpa using hended
      simp [hnone]

/-- Of processes that are killed one after the other none is left running. -/
theorem onlyEnds_killAll (targets : List (Nat × ProcessEntry)) (k : Kernel) :
    k.OnlyEnds (targets.foldl (fun k p => k.signal p.1 sigKill) k) ∧
    ∀ e ∈ targets, ∀ p, (targets.foldl (fun k p => k.signal p.1 sigKill) k).processes.lookup e.1 =
    some p → p.ending.isSome = true := by
  induction targets generalizing k with
  | nil => exact ⟨OnlyEnds.refl k, fun _ h => by cases h⟩
  | cons e rest ih =>
    obtain ⟨hfirst, hkilled⟩ := k.onlyEnds_kill e.1
    obtain ⟨hrest, hothers⟩ := ih (k.signal e.1 sigKill)
    refine ⟨hfirst.trans hrest, fun e' he' p hp => ?_⟩
    rcases mem_cons.mp he' with rfl | he'
    · obtain ⟨p₀, hp₀, -, hending⟩ := hrest e'.1 p hp
      exact hending (hkilled p₀ hp₀)
    · exact hothers e' he' p hp

theorem mem_of_lookup {l : List (Nat × ProcessEntry)} {pid : Nat} {p : ProcessEntry}
    (h : l.lookup pid = some p) : (pid, p) ∈ l := by
  induction l with
  | nil => cases h
  | cons e rest ih =>
    rw [lookup_cons] at h
    split at h
    · rename_i heq
      obtain rfl := eq_of_beq heq
      cases h
      exact mem_cons_self
    · exact mem_cons_of_mem _ (ih h)

/-- A group that is killed has ended. -/
theorem hasEnded_signalGroup (k : Kernel) (group : Nat) :
    k.OnlyEnds (k.signalGroup group sigKill) ∧ (k.signalGroup group sigKill).HasEnded group := by
  obtain ⟨honly, hkilled⟩ := onlyEnds_killAll (k.processes.filter fun p => p.2.group = group) k
  refine ⟨honly, fun pid p' hp' hgroup' => ?_⟩
  obtain ⟨p, hp, hgroup, -⟩ := honly pid p' hp'
  refine hkilled (pid, p) (mem_filter.mpr ⟨mem_of_lookup hp, ?_⟩) p' hp'
  simpa using hgroup.trans hgroup'

/-- A new process leads a group of its own. -/
theorem letsRest_addProcess (k : Kernel) (parent : Nat) (holds : List Nat) :
    k.LetsRest (k.addProcess parent none holds).2 ∧ k.nextPid ≤ (k.addProcess parent none holds).1 ∧
    (k.addProcess parent none holds).1 < (k.addProcess parent none holds).2.nextPid := by
  refine ⟨⟨?_, fun group hgroup hended pid p hp hp' => ?_⟩, le_refl _, ?_⟩
  · exact Nat.le_succ _
  · simp only [addProcess, takeFresh, lookup_cons] at hp
    split at hp
    · cases hp
      exact absurd hp' (Nat.ne_of_gt hgroup)
    · exact hended pid p hp hp'
  · exact Nat.lt_succ_self _

theorem signalGroup_nextPid (k : Kernel) (group number : Nat) :
    (k.signalGroup group number).nextPid = k.nextPid := by
  have hsignal (k : Kernel) (pid : Nat) : (k.signal pid number).nextPid = k.nextPid := by
    unfold signal endProcess
    split
    · rfl
    split
    · rfl
    split
    · rfl
    split
    · rfl
    · split <;> rfl
  have hall (l : List (Nat × ProcessEntry)) (k : Kernel) :
      (l.foldl (fun k p => k.signal p.1 number) k).nextPid = k.nextPid := by
    induction l generalizing k with
    | nil => rfl
    | cons e rest ih => rw [foldl_cons, ih, hsignal]
  exact hall _ k

end Kernel

/-! ## Steps of a task -/

namespace Machine

variable {m m' : Machine} {α : Type}

theorem letsRest_of_processes (h : m'.processes = m.processes)
    (hpid : m'.ownPid = m.ownPid) (hfresh : m.fresh ≤ m'.fresh) :
    m.kernel.LetsRest m'.kernel :=
  (onlyEnds_of_eq h).letsRest (by rw [nextPid, nextPid, hpid]; omega)

/-- What is answered at once starts and ends no process. -/
theorem letsRest_answer {c : Call} {r : c.Reply} (h : m.answer? c = some (m', r)) :
    m'.processes = m.processes ∧ m.kernel.LetsRest m'.kernel := by
  have hkept (hp : m'.processes = m.processes) (hpid : m'.ownPid = m.ownPid)
      (hfresh : m.fresh ≤ m'.fresh) :
      m'.processes = m.processes ∧ m.kernel.LetsRest m'.kernel :=
    ⟨hp, letsRest_of_processes hp hpid hfresh⟩
  cases c with
  | writeFile | appendFile | makeDir | removeFile | rename | restrict =>
    simp only [answer?, changing, Option.some.injEq] at h
    split at h <;> cases h <;> exact hkept rfl rfl (le_refl _)
  | openLock path =>
    simp only [answer?, openLock, takeFresh, bind, Except.bind] at h
    cases hopen : m.files.openForWriting m.cwd path with
    | error e =>
      simp only [hopen] at h
      cases h
      exact hkept rfl rfl (le_refl _)
    | ok opened =>
      simp only [hopen] at h
      cases h
      exact hkept rfl rfl (Nat.le_succ _)
  | markLock handle bytes =>
    simp only [answer?, markLock] at h
    cases hfile : m.kernel.fileOf handle with
    | none =>
      simp only [hfile] at h
      cases h
      exact hkept rfl rfl (le_refl _)
    | some id =>
      simp only [hfile] at h
      cases h
      exact hkept rfl rfl (le_refl _)
  | lock | run | awaitJob | awaitInterrupt => cases h
  | freshId =>
    cases h
    exact hkept rfl rfl (Nat.le_succ _)
  | _ =>
    cases h
    exact hkept rfl rfl (le_refl _)

theorem processes_runNow (p : Program α) (m : Machine) :
    (m.runNow p).1.processes = m.processes := by
  induction p generalizing m with
  | done a => rfl
  | call c next ih =>
    rw [runNow]
    split
    · rename_i m' r hr
      rw [ih r m', (letsRest_answer hr).1]
    · rfl

/-- The group of a child that is reaped has ended. -/
theorem hasEnded_reap (m : Machine) (child : Child) : m.kernel.OnlyEnds (m.reap child).kernel ∧
    m.kernel.LetsRest (m.reap child).kernel ∧ (m.reap child).kernel.HasEnded child.pid := by
  obtain ⟨honly, hended⟩ := m.kernel.hasEnded_signalGroup child.pid
  have hclosed : (m.kernel.signalGroup child.pid sigKill).OnlyEnds (m.reap child).kernel :=
    (onlyEnds_close _ _ _).trans (onlyEnds_close _ _ _)
  refine ⟨honly.trans hclosed, (honly.trans hclosed).letsRest ?_, hended.of_onlyEnds hclosed⟩
  exact (m.kernel.signalGroup_nextPid child.pid sigKill).ge

/-- A command that is started is a process under a new number. -/
theorem letsRest_spawn {command : Command} {timeout : Duration} {child : Child}
    (h : m.spawn command timeout = .ok (m', child)) : m.kernel.LetsRest m'.kernel ∧
    m.kernel.nextPid ≤ child.pid ∧ child.pid < m'.kernel.nextPid ∧
    child.command = command ∧ child.timeout = timeout := by
  unfold spawn at h
  cases hlaunch : m.launch m.kernel command with
  | error e => simp [hlaunch, bind, Except.bind] at h
  | ok start =>
    simp only [hlaunch, bind, Except.bind, Except.ok.injEq, Prod.mk.injEq] at h
    obtain ⟨rfl, rfl⟩ := h
    -- the kernel with the streams of the child, before the child itself
    let k₁ := (m.kernel.addStream .null).2
    let k₂ := k₁.makePipe.2.2
    let k₃ := k₂.makePipe.2.2
    let k₄ := k₃.hold k₃.ownPid [k₁.makePipe.1, k₂.makePipe.1]
    have hstreams : m.kernel.LetsRest k₄ := by
      have hhold : k₃.OnlyEnds k₄ := onlyEnds_setProcess k₃ k₃.ownPid (fun _ => rfl) fun _ h => h
      have hbefore : m.kernel.OnlyEnds k₃ := onlyEnds_of_eq rfl
      refine (hbefore.trans hhold).letsRest ?_
      change m.ownPid + m.fresh ≤ m.ownPid + (m.fresh + 1 + 1 + 1 + 1 + 1 + 1 + 1)
      omega
    obtain ⟨hadd, hle, hlt⟩ := k₄.letsRest_addProcess k₄.ownPid
      [(m.kernel.addStream .null).1, k₁.makePipe.2.1, k₂.makePipe.2.1]
    exact ⟨hstreams.trans ⟨hadd.nextPid_le, hadd.ended⟩, hstreams.nextPid_le.trans hle, hlt, rfl,
      rfl⟩

end Machine

/-! ## Tasks and their programs -/

open Program

/-- The debts that a task has after these events, the latest first. -/
def debtsAfter (debts : List Debt) (e : Event) : List Debt :=
  match e.call with
  | .owe debt => debt :: debts
  | .settle => debts.tail
  | _ => debts

def debtsOf (past : List Event) : List Debt := past.foldl debtsAfter []

theorem debtsOf_concat (past : List Event) (e : Event) :
    debtsOf (past ++ [e]) = debtsAfter (debtsOf past) e := by
  simp [debtsOf]

namespace Phase

variable {α : Type}

/-- What a task in this phase has still to do. -/
inductive Awaits : Phase α → Program α → Prop
  | ready (p : Program α) : Awaits (.ready p) p
  | resting (until_ : Nat) (p : Program α) : Awaits (.resting until_ p) p
  | locking {handle until_ : Nat} (wait : Duration) (next : LockReply → Program α) :
      Awaits (.locking handle until_ next) (.call (.lock handle wait) next)
  | awaiting {job deadline : Nat} (next : JobReply → Program α) :
      Awaits (.awaiting job deadline next) (.call (.awaitJob job deadline) next)
  | running {child : Child} (next : Except Fault CommandResult → Program α) :
      Awaits (.running child next) (.call (.run child.command child.timeout) next)
  | interruptible (next : Unit → Program α) :
      Awaits (.interruptible next) (.call .awaitInterrupt next)
  | ended (a : α) : Awaits (.ended a) (.done a)

/-- The group of the command that is under way. -/
def group? : Phase α → Option Nat
  | .running child _ => some child.pid
  | _ => none

end Phase

namespace Machine

variable {m m' : Machine} {α : Type} {t t' : Task α} {p : Program α} {groups : List Nat}

/-- What a step makes of processes: a command that was under way is killed, one is started, or
none of this. -/
inductive Moves (m m' : Machine) : Option Nat → Option Nat → Prop
  | none (rests : m.kernel.LetsRest m'.kernel) : Moves m m' none none
  | reaped {group : Nat} (rests : m.kernel.LetsRest m'.kernel) (ended : m'.kernel.HasEnded group) :
      Moves m m' (some group) none
  | spawned {group : Nat} (rests : m.kernel.LetsRest m'.kernel)
      (known : group < m'.kernel.nextPid) : Moves m m' none (some group)

/-- What a step makes of the program and the debts: nothing yet, or one call more is answered. -/
inductive Advances (debts debts' : List Debt) : Program α → Program α → List Event → Prop
  | same (p : Program α) (heq : debts' = debts) : Advances debts debts' p p []
  | reply {c : Call} (next : c.Reply → Program α) (r : c.Reply)
      (heq : debts' = debtsAfter debts ⟨c, r⟩) :
      Advances debts debts' (.call c next) (next r) [⟨c, r⟩]

/-- What a step of a task comes to. -/
def StepOutcome (m m' : Machine) (t t' : Task α) (p : Program α) : Prop :=
  Moves m m' t.phase.group? t'.phase.group? ∧
    ∃ p' es, t'.phase.Awaits p' ∧ Advances t.debts t'.debts p p' es

theorem moves_of_rests {x y : Phase α} (rests : m.kernel.LetsRest m'.kernel) (hx : x.group? = none)
    (hy : y.group? = none) : Moves m m' x.group? y.group? := by
  rw [hx, hy]
  exact .none rests

theorem Moves.of_rests {m₀ : Machine} {x y : Option Nat} (h : Moves m m' x y)
    (hrests : m₀.kernel.LetsRest m.kernel) : Moves m₀ m' x y := by
  cases h with
  | none rests => exact .none (hrests.trans rests)
  | reaped rests ended => exact .reaped (hrests.trans rests) ended
  | spawned rests known => exact .spawned (hrests.trans rests) known

theorem letsRest_tryLock {k k' : Kernel} {handle : Nat} (h : k.tryLock handle = some k') :
    k.LetsRest k' := by
  have hsame : k'.processes = k.processes ∧ k'.nextPid = k.nextPid := by
    unfold tryLock at h
    split at h
    · cases h
      exact ⟨rfl, rfl⟩
    split at h
    · cases h
    cases h
    exact ⟨rfl, rfl⟩
  exact (onlyEnds_of_eq hsame.1).letsRest hsame.2.ge

theorem letsRest_tick (m : Machine) (nanos : Nat) : m.kernel.LetsRest (m.kernel.tick nanos) := by
  have hsame : m.kernel.OnlyEnds (m.kernel.tick nanos) := onlyEnds_of_eq rfl
  exact hsame.letsRest (le_refl _)

/-- A command is answered by a script or cannot be started, or it is under way. -/
theorem startCommand_cases {command : Command} {timeout : Duration}
    {next : Except Fault CommandResult → Program α} {phase : Phase α}
    (h : m.startCommand command timeout next = (m', phase)) : Moves m m' none phase.group? ∧
    (phase.Awaits (.call (.run command timeout) next) ∨ ∃ r, phase.Awaits (next r)) := by
  unfold startCommand at h
  split at h
  · obtain ⟨rfl, rfl⟩ := h
    exact ⟨.none (letsRest_of_processes rfl rfl (le_refl _)), .inr ⟨_, .resting _ _⟩⟩
  cases hspawn : (m.addCall command timeout).spawn command timeout with
  | error e =>
    simp only [hspawn, Prod.mk.injEq] at h
    obtain ⟨rfl, rfl⟩ := h
    exact ⟨.none (letsRest_of_processes rfl rfl (le_refl _)), .inr ⟨_, .ready _⟩⟩
  | ok started =>
    simp only [hspawn, Prod.mk.injEq] at h
    obtain ⟨rfl, rfl⟩ := h
    obtain ⟨hrests, -, hknown, rfl, rfl⟩ := letsRest_spawn hspawn
    exact ⟨.spawned hrests hknown, .inl (.running next)⟩

theorem outcome_begin (c : Call) (next : c.Reply → Program α)
    (ht : t.phase = .ready (.call c next)) :
    StepOutcome m (m.begin_ t c next).1 t (m.begin_ t c next).2 (.call c next) := by
  have hgroup : t.phase.group? = none := by rw [ht]; rfl
  have hnone {m' : Machine} {phase : Phase α} (hrests : m.kernel.LetsRest m'.kernel)
      (hphase : phase.group? = none) : Moves m m' t.phase.group? phase.group? := by
    rw [hgroup, hphase]
    exact .none hrests
  have hself : m.kernel.LetsRest m.kernel := letsRest_of_processes rfl rfl (le_refl _)
  have hprompt {m' : Machine} {r : c.Reply} (hr : m.answer? c = some (m', r))
      (hdebts : debtsAfter t.debts ⟨c, r⟩ = t.debts) :
      StepOutcome m m' t { t with phase := .ready (next r) } (.call c next) :=
    ⟨hnone (letsRest_answer hr).2 rfl, _, _, .ready _, .reply next r hdebts.symm⟩
  cases c with
  | lock handle wait => exact ⟨hnone hself rfl, _, _, .locking wait next, .same _ rfl⟩
  | awaitJob job deadline => exact ⟨hnone hself rfl, _, _, .awaiting next, .same _ rfl⟩
  | awaitInterrupt => exact ⟨hnone hself rfl, _, _, .interruptible next, .same _ rfl⟩
  | run command timeout =>
    cases hstart : m.startCommand command timeout next with
    | mk m' phase =>
      obtain ⟨hmoves, hawaits⟩ := startCommand_cases hstart
      simp only [begin_, hstart]
      refine ⟨hgroup ▸ hmoves, ?_⟩
      rcases hawaits with hawaits | ⟨r, hawaits⟩
      · exact ⟨_, _, hawaits, .same _ rfl⟩
      · exact ⟨_, _, hawaits, .reply next r rfl⟩
  | owe debt => exact ⟨hnone hself rfl, _, _, .ready _, .reply next () rfl⟩
  | settle => exact ⟨hnone hself rfl, _, _, .ready _, .reply next () rfl⟩
  | _ =>
    simp only [begin_]
    split
    · rename_i m' r hr
      exact hprompt hr rfl
    rename_i hr
    exact absurd ((m.answer?_eq_none_iff _).mp hr) (by simp [Call.waits])

/-- What the next step of a task does to processes, to what it has still to do and to its debts. -/
theorem stepTask_cases (h : m.stepTask t = some (m', t')) (hp : t.phase.Awaits p) :
    StepOutcome m m' t t' p := by
  have htick := m.letsRest_tick callCost
  have hreply {c : Call} {next : c.Reply → Program α} (r : c.Reply) (hgroup : t.phase.group? = none)
      (hdebts : debtsAfter t.debts ⟨c, r⟩ = t.debts) (hrests : m.kernel.LetsRest m'.kernel)
      (ht' : t' = { t with phase := .ready (next r) }) : StepOutcome m m' t t' (.call c next) := by
    subst ht'
    exact ⟨moves_of_rests hrests hgroup rfl, _, _, .ready _, .reply next r hdebts.symm⟩
  have hreaped {child : Child} {next : Except Fault CommandResult → Program α}
      {r : Except Fault CommandResult} (ht : t.phase = .running child next)
      (h : some (({ m with kernel := m.kernel.tick callCost } : Machine).reap child,
        { t with phase := .ready (next r) }) =
        some (m', t')) : StepOutcome m m' t t' (.call (.run child.command child.timeout) next) := by
    cases h
    obtain ⟨-, hrests, hended⟩ :=
      ({ m with kernel := m.kernel.tick callCost } : Machine).hasEnded_reap child
    refine ⟨?_, _, _, .ready _, .reply (c := .run child.command child.timeout) next r rfl⟩
    rw [ht]
    exact .reaped (htick.trans hrests) hended
  unfold stepTask at h
  cases hphase : t.phase with
  | ended a => simp [hphase] at h
  | ready q =>
    have hgroup : t.phase.group? = none := by rw [hphase]; rfl
    rw [hphase] at hp
    cases hp
    cases p with
    | done a =>
      simp only [hphase, Option.some.injEq, Prod.mk.injEq] at h
      obtain ⟨rfl, rfl⟩ := h
      exact ⟨moves_of_rests htick hgroup rfl, _, _, .ended a, .same _ rfl⟩
    | call c next =>
      simp only [hphase, Option.some.injEq] at h
      obtain ⟨hmoves, hrest⟩ :=
        outcome_begin (m := { m with kernel := m.kernel.tick callCost }) c next hphase
      rw [h] at hmoves hrest
      exact ⟨hmoves.of_rests htick, hrest⟩
  | resting until_ q =>
    have hgroup : t.phase.group? = none := by rw [hphase]; rfl
    rw [hphase] at hp
    cases hp
    simp only [hphase] at h
    split at h
    · cases h
      exact ⟨moves_of_rests htick hgroup rfl, _, _, .ready _, .same _ rfl⟩
    · cases h
  | locking handle until_ next =>
    have hgroup : t.phase.group? = none := by rw [hphase]; rfl
    rw [hphase] at hp
    cases hp
    simp only [hphase] at h
    split at h
    · rename_i kernel hlock
      cases h
      exact hreply .acquired hgroup rfl (htick.trans (letsRest_tryLock hlock)) rfl
    · split at h
      · cases h
        exact hreply .stillHeld hgroup rfl htick rfl
      · cases h
  | awaiting job deadline next =>
    have hgroup : t.phase.group? = none := by rw [hphase]; rfl
    rw [hphase] at hp
    cases hp
    simp only [hphase] at h
    split at h
    · cases h
      exact hreply (.finished _) hgroup rfl htick rfl
    split at h
    · cases h
      exact hreply .cancelled hgroup rfl htick rfl
    split at h
    · cases h
      exact hreply .expired hgroup rfl htick rfl
    · cases h
  | running child next =>
    rw [hphase] at hp
    cases hp
    simp only [hphase] at h
    split at h
    · exact hreaped hphase h
    split at h
    · exact hreaped hphase h
    split at h
    · exact hreaped hphase h
    · cases h
  | interruptible next =>
    have hgroup : t.phase.group? = none := by rw [hphase]; rfl
    rw [hphase] at hp
    cases hp
    simp only [hphase] at h
    split at h
    · cases h
      exact hreply () hgroup rfl htick rfl
    · cases h

/-! ## Runs of a task -/

/-- A task takes its steps on a machine on which others go on as they like, as long as what has
ended stays so. It has started these groups of processes. -/
inductive Follows (p : Program α) : List Nat → Machine → Task α → Prop
  | start (m : Machine) (cancelAt : Option Nat) : Follows p [] m (.ofProgram p cancelAt)
  | step {groups : List Nat} {m m' : Machine} {t t' : Task α} (before : Follows p groups m t)
      (step : m.stepTask t = some (m', t')) : Follows p (t'.phase.group?.toList ++ groups) m' t'
  | beside {groups : List Nat} {m m' : Machine} {t : Task α} (before : Follows p groups m t)
      (rests : m.kernel.LetsRest m'.kernel) : Follows p groups m' t

/-- Where a task stands: what it has done is the beginning of a course of its program, it owes what
follows from that, and all commands that it has started are over but the one under way. -/
structure Stands (p : Program α) (groups : List Nat) (m : Machine) (t : Task α) : Prop where
  course : ∃ past rest, (⟨past, rest, false⟩ : Activity α).IsOf p ∧ t.phase.Awaits rest ∧
    t.debts = debtsOf past
  known : ∀ group ∈ groups, group < m.kernel.nextPid
  finished : ∀ group ∈ groups, t.phase.group? = some group ∨ m.kernel.HasEnded group

theorem Stands.step (hs : Stands p groups m t) (h : m.stepTask t = some (m', t')) :
    Stands p (t'.phase.group?.toList ++ groups) m' t' := by
  obtain ⟨past, rest, hof, hawaits, hdebts⟩ := hs.course
  obtain ⟨hmoves, rest', es, hawaits', hadv⟩ := stepTask_cases h hawaits
  have hcourse : ∃ past rest, (⟨past, rest, false⟩ : Activity α).IsOf p ∧ t'.phase.Awaits rest ∧
      t'.debts = debtsOf past := by
    cases hadv with
    | same _ heq => exact ⟨past, rest, hof, hawaits', heq.trans hdebts⟩
    | reply next r heq => exact ⟨_, _, hof.reply r, hawaits', by rw [heq, hdebts, debtsOf_concat]⟩
  have hover := hs.finished
  revert hmoves hover
  generalize hbefore : t.phase.group? = before
  generalize hafter : t'.phase.group? = after
  intro hmoves hover
  have hknown (hrests : m.kernel.LetsRest m'.kernel) (group : Nat) (hgroup : group ∈ groups) :
      group < m'.kernel.nextPid := (hs.known group hgroup).trans_le hrests.nextPid_le
  cases hmoves with
  | none rests =>
    refine ⟨hcourse, hknown rests, fun group hgroup => .inr ?_⟩
    rcases hover group hgroup with hnone | hended
    · cases hnone
    · exact rests.ended group (hs.known group hgroup) hended
  | @reaped reaped rests ended =>
    refine ⟨hcourse, hknown rests, fun group hgroup => .inr ?_⟩
    rcases hover group hgroup with hsome | hended
    · cases hsome
      exact ended
    · exact rests.ended group (hs.known group hgroup) hended
  | @spawned spawned rests known =>
    constructor
    · exact hcourse
    · intro group hgroup
      rcases mem_cons.mp hgroup with rfl | hgroup
      · exact known
      · exact hknown rests group hgroup
    · intro group hgroup
      rcases mem_cons.mp hgroup with rfl | hgroup
      · exact .inl hafter
      rcases hover group hgroup with hnone | hended
      · cases hnone
      · exact .inr (rests.ended group (hs.known group hgroup) hended)

theorem Follows.stands (h : Follows p groups m t) : Stands p groups m t := by
  induction h with
  | start m cancelAt =>
    have hnone (group : Nat) (hgroup : group ∈ []) : False := not_mem_nil hgroup
    exact ⟨⟨[], p, Activity.isOf_self p, .ready p, rfl⟩, fun group h => (hnone group h).elim,
      fun group h => (hnone group h).elim⟩
  | step _ hstep ih => exact ih.step hstep
  | beside _ rests ih =>
    refine ⟨ih.course, fun group hgroup => (ih.known group hgroup).trans_le rests.nextPid_le, ?_⟩
    intro group hgroup
    rcases ih.finished group hgroup with hunder | hended
    · exact .inl hunder
    · exact .inr (rests.ended group (ih.known group hgroup) hended)

/-! ## Abandoned tasks -/

/-- Pay debts one after the other. -/
def payAll : List Debt → Program Unit
  | [] => return ()
  | debt :: rest => do
    debt.pay
    payAll rest

/-- Kill the command that a task has under way. -/
def stopping (m : Machine) (t : Task α) : Machine :=
  match t.phase with
  | .running child _ => m.reap child
  | _ => m

/-- Calls that are answered at once. -/
def IsPrompt (c : Call) : Prop := c.waits = false

theorem runNow_bind {β : Type} {f : α → Program β} (hp : p.Only IsPrompt) :
    ∃ a, (m.runNow p).2 = some a ∧ m.runNow (p >>= f) = (m.runNow p).1.runNow (f a) := by
  induction p generalizing m with
  | done a => exact ⟨a, rfl, rfl⟩
  | call c next ih =>
    obtain ⟨hc, hnext⟩ := Program.obeys_call.mp hp
    cases hr : m.answer? c with
    | none =>
      rw [m.answer?_eq_none_iff] at hr
      rw [show c.waits = false from hc] at hr
      cases hr
    | some answered =>
      obtain ⟨m', r⟩ := answered
      obtain ⟨a, ha, hrest⟩ := ih r (hnext r trivial) (m := m')
      refine ⟨a, ?_, ?_⟩
      · simp only [runNow, hr, ha]
      · simp [runNow, hr, hrest]

theorem prompt_pay (debt : Debt) : debt.pay.Only IsPrompt := by
  cases debt with
  | workspace root artifacts =>
    have hremove : (ask (.removeTree root)).Only IsPrompt := only_ask rfl
    apply hremove.bind
    intro r
    have hsweep : (sweepAll artifacts).Only IsPrompt :=
      only_sweepAll (fun _ => rfl) (fun _ _ => rfl) artifacts
    cases r with
    | ok _ => exact hsweep
    | error e =>
      dsimp only
      split
      · exact Only.bind (only_ask rfl) fun _ => hsweep
      · exact hsweep
  | lock path handle =>
    have hmark : (ask (.markLock handle .empty)).Only IsPrompt := only_ask rfl
    apply hmark.bind
    intro r
    have hclose : (ask (.closeLock handle)).Only IsPrompt := only_ask rfl
    cases r with
    | ok _ => exact hclose
    | error e => exact Only.bind (only_ask rfl) fun _ => hclose

/-- To abandon a task is to stop its command and to pay its debts. -/
theorem abandon_eq (m : Machine) (t : Task α) :
    m.abandon t = ((m.stopping t).runNow (payAll t.debts)).1 := by
  have hall (debts : List Debt) (m : Machine) :
      debts.foldl (fun m debt => (m.runNow debt.pay).1) m = (m.runNow (payAll debts)).1 := by
    induction debts generalizing m with
    | nil => rfl
    | cons debt rest ih =>
      obtain ⟨a, -, hrest⟩ := runNow_bind (m := m) (f := fun _ => payAll rest) (prompt_pay debt)
      rw [foldl_cons, ih, payAll, hrest]
  exact hall t.debts _

/-- Once a task is abandoned, no process of any command that it has started is running. -/
theorem Follows.hasEnded_abandon (h : Follows p groups m t) (group : Nat)
    (hgroup : group ∈ groups) : (m.abandon t).kernel.HasEnded group := by
  have hstopped : (m.stopping t).kernel.HasEnded group := by
    rcases h.stands.finished group hgroup with hunder | hended
    · unfold stopping
      cases hphase : t.phase with
      | running child next =>
        rw [hphase] at hunder
        cases hunder
        exact (m.hasEnded_reap child).2.2
      | _ =>
        rw [hphase] at hunder
        cases hunder
    · unfold stopping
      split
      · exact hended.of_onlyEnds (m.hasEnded_reap _).1
      · exact hended
  rw [abandon_eq]
  exact hstopped.of_onlyEnds (onlyEnds_of_eq (processes_runNow _ _))

end Machine

end Foundry
