import Foundry.Proofs.Machine.Bystanders
import Foundry.Proofs.Service.Accounting
import Foundry.Proofs.Service.Fallback

/-!
# Builds that do without their request

While a request waits for the build of the template, its time can run out, it can be
cancelled, or nobody wants its answer any more. Whatever happens, the build goes on as if
the request were still waiting: every job and every process stands where it would stand,
and so does every file. The one thing that a failed request leaves is its report. So the log
may have been begun earlier and holds a line more, and a command that looks at the log can
tell.
-/

namespace Foundry

variable {α : Type}

open Program List Machine

/-! ## Moves -/

/-- Who does something next. -/
inductive Move where
  /-- The request in front takes a step, if it can. -/
  | front
  /-- Every background job takes a step, if it can. -/
  | jobs
  /-- Every process takes a step, if it can. -/
  | processes
  /-- Something else happens: time passes, files come and go, other requests take steps. -/
  | other (f : Machine → Machine)

def Move.isFront : Move → Bool
  | .front => true
  | _ => false

/-- A machine with a request in front. -/
structure Foreground (α : Type) extends machine : Machine where
  request : Task α

namespace Machine

def passing (nanos : Nat) (m : Machine) : Machine := { m with kernel := m.kernel.tick nanos }

/-- The next step of a task that waits for a job. -/
theorem stepTask_awaiting {α : Type} {m : Machine} {t : Task α} {job deadline : Nat}
    {next : JobReply → Program α} (h : t.phase = .awaiting job deadline next) :
    m.stepTask t = match m.jobResult? job with
      | some r => some (m.passing callCost, { t with phase := .ready (next (.finished r)) })
      | none =>
        if (m.passing callCost).isCancelled t then
          some (m.passing callCost, { t with phase := .ready (next .cancelled) })
        else if deadline ≤ m.now + callCost then
          some (m.passing callCost, { t with phase := .ready (next .expired) })
        else none := by
  unfold stepTask
  rw [h]
  rfl

/-- The machine after it has answered a call. -/
def after (c : Call) (m : Machine) : Machine :=
  match m.answer? c with
  | some (m', _) => m'
  | none => m

end Machine

namespace Foreground

variable {m : Machine}
variable {α : Type} {x : Foreground α} {moves : List Move} {free : Nat → Bool} {name : String}

def move (x : Foreground α) : Move → Foreground α
  | .front =>
    match x.machine.stepTask x.request with
    | some (m, t) => ⟨m, t⟩
    | none => x
  | .jobs => { x with machine := x.machine.turnJobs }
  | .processes => { x with machine := x.machine.turnProcesses }
  | .other f => { x with machine := f x.machine }

def run (x : Foreground α) (moves : List Move) : Foreground α := moves.foldl move x

theorem run_cons (x : Foreground α) (mv : Move) (moves : List Move) :
    x.run (mv :: moves) = (x.move mv).run moves := rfl

/-! ### What holds along a run -/

/-- The test holds before every move. -/
def Along (test : Foreground α → Move → Prop) : Foreground α → List Move → Prop
  | _, [] => True
  | x, mv :: moves => test x mv ∧ Along test (x.move mv) moves

instance decidableAlong (test : Foreground α → Move → Prop) [∀ x mv, Decidable (test x mv)] :
    ∀ x moves, Decidable (Along test x moves)
  | _, [] => isTrue trivial
  | x, mv :: moves =>
    haveI := decidableAlong test (x.move mv) moves
    inferInstanceAs (Decidable (test x mv ∧ Along test (x.move mv) moves))

theorem along_of_mem {test : Foreground α → Move → Prop} (h : ∀ mv ∈ moves, ∀ x, test x mv)
    (x : Foreground α) : Along test x moves := by
  induction moves generalizing x with
  | nil => trivial
  | cons mv moves ih =>
    exact ⟨h mv mem_cons_self x, ih (fun mv' hmv' => h mv' (mem_cons_of_mem mv hmv')) _⟩

theorem Along.combine {p q r : Foreground α → Move → Prop} (h : ∀ x mv, p x mv → q x mv → r x mv)
    (hp : Along p x moves) (hq : Along q x moves) : Along r x moves := by
  induction moves generalizing x with
  | nil => trivial
  | cons mv moves ih => exact ⟨h x mv hp.1 hq.1, ih hp.2 hq.2⟩

/-- The test holds whenever it is the request's turn. -/
def AtTurns (test : Foreground α → Bool) (x : Foreground α) (moves : List Move) : Prop :=
  Along (fun y mv => mv.isFront = true → test y = true) x moves

instance (test : Foreground α → Bool) (x : Foreground α) (moves : List Move) :
    Decidable (AtTurns test x moves) :=
  inferInstanceAs (Decidable (Along _ x moves))

/-- In the request's place this task would have nothing to do. -/
def idles {β : Type} (idle : Task β) (x : Foreground α) : Bool := (x.machine.stepTask idle).isNone

/-- Whenever it is the request's turn it has to wait, or has ended. -/
def Waits (x : Foreground α) (moves : List Move) : Prop := AtTurns (idles x.request) x moves

/-- A turn of a request that waits is the time that passes meanwhile. -/
theorem waits_turn {t : Task α} {f g : Machine → Machine}
    (hnone : m.stepTask t = none) (h : Waits ⟨g (f m), t⟩ moves) :
    Waits ⟨m, t⟩ (.front :: .other f :: .other g :: moves) ∧
    run ⟨m, t⟩ (.front :: .other f :: .other g :: moves) = run ⟨g (f m), t⟩ moves := by
  have hfront : move ⟨m, t⟩ .front = ⟨m, t⟩ := by simp only [move, hnone]
  constructor
  · simp only [Waits, AtTurns, Along, hfront]
    exact ⟨fun _ => by rw [idles, hnone]; rfl, Bool.noConfusion, Bool.noConfusion, h⟩
  rw [run_cons, hfront]
  rfl

/-- Beside a request that waits everything goes on as it does beside one that has ended. -/
theorem machine_of_waits {t : Task α} (h : Waits ⟨m, t⟩ moves) {β : Type} (b : β) :
    (run ⟨m, ({ phase := .ended b } : Task β)⟩ moves).machine = (run ⟨m, t⟩ moves).machine := by
  induction moves generalizing m with
  | nil => rfl
  | cons mv moves ih =>
    cases mv with
    | front =>
      have hnone : m.stepTask t = none := Option.isNone_iff_eq_none.mp (h.1 rfl)
      have hfront : move ⟨m, t⟩ .front = ⟨m, t⟩ := by simp only [move, hnone]
      have hlater := h.2
      rw [hfront] at hlater
      rw [run_cons, run_cons, hfront]
      exact ih hlater
    | jobs | processes | other => exact ih h.2

/-- If the request is about to add to a file, it is to a free one. -/
def addsOnlyTo (free : Nat → Bool) (x : Foreground α) : Bool :=
  match x.request.phase with
  | .ready (.call (.appendFile path _) _) =>
    x.files.opensOnly x.cwd path free
  | _ => true

/-- The move does the same to a machine that differs in free files or in samples of that name
alone. -/
def Overlooks (free : Nat → Bool) (name : String) (x : Foreground α) (mv : Move) : Prop :=
  ∀ m, m.SameBut free name x.machine →
    (move ⟨m, x.request⟩ mv).machine.SameBut free name (x.move mv).machine

theorem overlooks_jobs (x : Foreground α) : x.Overlooks free name .jobs := fun _ h => h.turnJobs

theorem overlooks_processes (h : ∀ r ∈ x.running, r.process.Overlooks free) :
    x.Overlooks free name .processes := by
  intro m hm
  exact hm.turnProcesses (hm.running_eq ▸ h)

/-- Along the run nobody looks into free files: they are not for execution and nobody has them
open, commands start as they would otherwise, and processes do what they would do. -/
structure Unread (free : Nat → Bool) (name : String) (x : Foreground α) (moves : List Move) :
    Prop where
  inert : x.files.Inert free
  unopened : x.machine.kernel.Unopened free
  launch : ∀ (κ : Kernel) (fs fs' : Files) (command : Command), fs.Grown free fs' →
    x.launch (κ.withFiles fs') command = x.launch (κ.withFiles fs) command
  processes : Along (fun y mv => mv = .processes → y.Overlooks free name mv) x moves

/-- Where no file is free nobody looks into free files. -/
theorem unread_none (x : Foreground α) (moves : List Move) :
    Unread (fun _ => false) name x moves where
  inert := Files.inert_none _
  unopened := fun _ _ _ _ _ => rfl
  launch := fun κ fs fs' command h => by rw [h.eq_of_none]
  processes := along_of_mem (fun _ _ _ hmv => hmv ▸
    overlooks_processes fun r _ => r.process.overlooks_none) x

end Foreground

/-! ## Reports of a failure -/

namespace AuditLog

variable {log : AuditLog} {es : List Event} {α : Type} {fault : Fault} {n : Nat}

/-- Calls by which a request that has failed takes its leave. -/
def IsReport (log : AuditLog) : Call → Prop
  | .clock | .today | .warn .. => True
  | .record operation _ => operation = "generate"
  | .makeDirs dir => log.enabled = true ∧ Path.parent? log.path = some dir
  | .appendFile path _ => log.enabled = true ∧ path = log.path
  | _ => False

theorem course_append_reports {bytes : ByteArray} {r : Except Cause Unit}
    (henabled : log.enabled = true)
    (h : Course (log.append bytes) es r) : es.length ≤ 2 ∧ ∀ e ∈ es, log.IsReport e.call := by
  unfold append at h
  split at h
  · rename_i dir hdir
    obtain ⟨made, rest, rfl, hrest⟩ := course_ask_bind.mp h
    cases made with
    | error e =>
      obtain ⟨rfl, -⟩ := course_done.mp hrest
      simp [IsReport, henabled, hdir]
    | ok _ =>
      obtain rfl := course_ask.mp hrest
      simp [IsReport, henabled, hdir]
  · obtain rfl := course_ask.mp h
    simp [IsReport, henabled]

theorem course_record_reports {event : AuditEvent} (h : Course (log.record event) es ()) :
    es.length ≤ 4 ∧ ∀ e ∈ es, log.IsReport e.call := by
  unfold record at h
  split at h
  · rename_i henabled
    obtain ⟨now, rest, rfl, hrest⟩ := course_ask_bind.mp h
    cases hline : event.line? now with
    | none =>
      rw [hline] at hrest
      obtain rfl := course_ask.mp hrest
      simp [IsReport]
    | some line =>
      rw [hline] at hrest
      obtain ⟨added, rest, r, rfl, hadded, hrest⟩ := course_bind.mp hrest
      obtain ⟨hlength, hreports⟩ := course_append_reports henabled hadded
      cases r with
      | ok _ =>
        obtain ⟨rfl, -⟩ := course_done.mp hrest
        simp only [append_nil, length_cons, forall_mem_cons]
        exact ⟨by omega, trivial, hreports⟩
      | error e =>
        obtain rfl := course_ask.mp hrest
        simp only [length_cons, length_append, length_nil, forall_mem_cons,
          forall_mem_append]
        exact ⟨by omega, trivial, hreports, trivial, by simp⟩
  · obtain ⟨rfl, -⟩ := course_done.mp h
    simp

/-- Whatever it hears, the program only reports a failure, in so many calls at most, and ends with
it. -/
def Leaves (log : AuditLog) (fault : Fault) (n : Nat) (p : Program (Except Fault α)) : Prop :=
  ∀ es outcome, Course p es outcome →
    es.length ≤ n ∧ (∀ e ∈ es, log.IsReport e.call) ∧ outcome = .error fault

theorem Leaves.done {r : Except Fault α} (h : log.Leaves fault n (.done r)) : r = .error fault :=
  (h [] r (.done r)).2.2

theorem Leaves.call {c : Call} {next : c.Reply → Program (Except Fault α)}
    (h : log.Leaves fault n (.call c next)) :
    log.IsReport c ∧ ∃ i, n = i + 1 ∧ ∀ r, log.Leaves fault i (next r) := by
  have hcourse (r : c.Reply) {es : List Event} {outcome : Except Fault α}
      (hes : Course (next r) es outcome) :=
    h (⟨c, r⟩ :: es) outcome (.call r hes)
  obtain ⟨r⟩ := nonempty_reply c
  obtain ⟨hlength, hreports, -⟩ :=
    hcourse r (course_follow (fun _ => Service.freshReply) [] (next r))
  rw [length_cons] at hlength
  obtain ⟨i, rfl⟩ : ∃ i, n = i + 1 := ⟨n - 1, by omega⟩
  refine ⟨(forall_mem_cons.mp hreports).1, i, rfl, fun r es outcome hes => ?_⟩
  obtain ⟨hlength, hreports, houtcome⟩ := hcourse r hes
  exact ⟨Nat.le_of_succ_le_succ hlength, (forall_mem_cons.mp hreports).2, houtcome⟩

end AuditLog

namespace Service

variable {s : Service} {request : Request} {past es : List Event} {outcome : Except Fault Generated}
  {job deadline : Nat} {reply : JobReply} {fault : Fault}

/-- The fault of a request whose wait for the template ends so. -/
def gaveUp? (request : Request) : JobReply → Option Fault
  | .expired => some (.timeout "template" request.timeout.toSeconds)
  | .cancelled => some .cancelled
  | .finished _ => none

/-- A request that gives up waiting has owed nothing so far, and only reports its failure. -/
theorem course_gaveUp (hfault : gaveUp? request reply = some fault)
    (h : Course (s.generateRequest request).run (past ++ ⟨.awaitJob job deadline, reply⟩ :: es)
    outcome) :
    (∀ e ∈ past, ∀ debt, e.call ≠ .owe debt) ∧ es.length ≤ 8 ∧ (∀ e ∈ es, s.audit.IsReport e.call) ∧
    outcome = .error fault := by
  have hawait : (⟨.awaitJob job deadline, reply⟩ : Event) ∈
      past ++ ⟨.awaitJob job deadline, reply⟩ :: es := by
    simp
  obtain ⟨arrived, looked, begun, told, rest, r, hown, hlooked, htakes, -, hfails⟩ :=
    cut_at_await h hawait
  obtain ⟨rfl, htold, htoldReports⟩ : r = .error fault ∧ told.length ≤ 1 ∧
      ∀ e ∈ told, s.audit.IsReport e.call := by
    cases htakes with
    | built | failed => cases hfault
    | expired | cancelled =>
      cases hfault
      simp [AuditLog.IsReport]
  obtain ⟨t, closing, rfl, hclose⟩ := hfails fault rfl
  cases hclose with
  | @fails _ closing tells =>
    obtain ⟨hlength, hreports⟩ := AuditLog.course_record_reports tells
    have hleaving : ∀ e ∈ told ++ ⟨.clock, t⟩ :: ⟨.record "generate" ⟨t - arrived⟩, ()⟩ ::
        ⟨s.failureWarning request fault, ()⟩ :: closing, s.audit.IsReport e.call := by
      simp only [forall_mem_append, forall_mem_cons]
      exact ⟨htoldReports, trivial, rfl, trivial, hreports⟩
    have hlooks := hlooked.only (looksUp_lookup s _)
    have hsplit :
        (⟨.clock, arrived⟩ :: (looked ++ [⟨.clock, begun⟩, ⟨.isFile s.template.marker, false⟩,
          ⟨.startJob, job⟩])) ++ (⟨.awaitJob job deadline, reply⟩ : Event) :: (told ++
          ⟨.clock, t⟩ :: ⟨.record "generate" ⟨t - arrived⟩, ()⟩ ::
          ⟨s.failureWarning request fault, ()⟩ :: closing) =
        past ++ ⟨.awaitJob job deadline, reply⟩ :: es := by
      simpa [awaitEvents] using hown.symm
    have hbefore : (⟨.awaitJob job deadline, reply⟩ : Event) ∉ looked :=
      fun hmem => (hlooks _ hmem).kind_ne.2 rfl
    obtain ⟨rfl, -, rfl⟩ := (append_cons_inj_of_notMem (by simp [hbefore])
      (by intro hmem; exact hleaving _ hmem)).mp hsplit
    refine ⟨?_, ?_, hleaving, rfl⟩
    · simp only [forall_mem_cons, forall_mem_append]
      refine ⟨by simp, fun e he debt hdebt => ?_, by simp⟩
      have hlook := hlooks e he
      rw [hdebt] at hlook
      exact hlook.elim id id
    · simp only [length_append, length_cons]
      omega

theorem debtsOf_eq_nil (h : ∀ e ∈ past, ∀ debt, e.call ≠ .owe debt) : debtsOf past = [] := by
  induction past with
  | nil => rfl
  | cons e past ih =>
    obtain ⟨he, hpast⟩ := forall_mem_cons.mp h
    have hnone : debtsAfter [] e = [] := by
      unfold debtsAfter
      split
      · rename_i debt hcall
        exact absurd hcall (he debt)
      · rfl
      · rfl
    rw [debtsOf, foldl_cons, hnone]
    exact ih hpast

/-- A request that waits for the template owes nothing, and if it gives up it takes its leave. -/
theorem leaves_of_awaiting {next : JobReply → Program (Except Fault Generated)}
    (h : (⟨past, .call (.awaitJob job deadline) next, false⟩ : Activity _).IsOf
    (s.generateRequest request).run) : debtsOf past = [] ∧
    ∀ reply fault, gaveUp? request reply = some fault → s.audit.Leaves fault 8 (next reply) := by
  have hcourse (reply : JobReply) {es : List Event} {outcome : Except Fault Generated}
      (hes : Course (next reply) es outcome) := h (⟨.awaitJob job deadline, reply⟩ :: es) outcome
        ((course_call (c := .awaitJob job deadline)).mpr ⟨reply, es, rfl, hes⟩)
  constructor
  · have hcancelled := hcourse .cancelled (course_follow (fun _ => freshReply) [] (next .cancelled))
    exact debtsOf_eq_nil (course_gaveUp rfl hcancelled).1
  intro reply fault hfault es outcome hes
  exact (course_gaveUp hfault (hcourse reply hes)).2

/-! ## What builds do -/

theorem heedless_ensureTemplate (s : Service) : s.ensureTemplate.run.Only Call.IsHeedless := by
  have hbuilds (c : Call) (h : s.template.Builds c) : c.IsHeedless := by
    cases c with
    | isFile | makeDirs | removeTree | writeFile | openLock | lock | markLock | closeLock | today
    | ownPid | warn | owe | settle | run => trivial
    | _ => exact h.elim
  have htells (c : Call) (h : AuditLog.Tells c) : c.IsHeedless := by
    cases c with
    | today | makeDirs | appendFile | warn => trivial
    | _ => exact h.elim
  have hclock : (ask .clock).Only Call.IsHeedless := only_ask (c := .clock) trivial
  apply Action.only_lift_bind hclock
  intro start
  apply Action.only_bind ((Template.builds_of_once s.template.once_ensure).mono hbuilds)
  intro built
  apply Action.only_lift_bind (hclock.bind fun _ => only_done _)
  intro elapsed
  apply Action.only_lift_bind (only_ask (c := .record _ _) trivial)
  intro _
  exact Action.only_lift_bind ((s.tells_auditBuilt built).mono htells) fun _ => only_done _

end Service

/-- A program all of whose courses are made of such calls. -/
theorem only_of_courses {allowed : Call → Prop} {p : Program α}
    (h : ∀ es a, Course p es a → ∀ e ∈ es, allowed e.call) : p.Only allowed := by
  induction p with
  | done a => exact only_done a
  | call c next ih =>
    have hcourse (r : c.Reply) {es : List Event} {a : α} (hes : Course (next r) es a) :=
      forall_mem_cons.mp (h (⟨c, r⟩ :: es) a (.call r hes))
    obtain ⟨r⟩ := nonempty_reply c
    have hc := (hcourse r (course_follow (fun _ => Service.freshReply) [] (next r))).1
    exact obeys_call.mpr ⟨hc, fun r _ => ih r fun es a hes => (hcourse r hes).2⟩

/-- What a program never does a task of it never does. -/
theorem Machine.Follows.isHeedless {p : Program α} {groups : List Nat} {m : Machine} {t : Task α}
    (h : Machine.Follows p groups m t) (hp : p.Only Call.IsHeedless) : t.IsHeedless := by
  obtain ⟨past, rest, hof, hawaits, -⟩ := h.stands.course
  refine ⟨rest, hawaits, only_of_courses fun es a hes e he => ?_⟩
  exact (hof es a hes).only hp e (mem_append_right past he)

/-! ## Without the request -/

section Leaving

open Foreground

variable {c : Call}
variable {log : AuditLog} {fault : Fault} {n : Nat} {free : Nat → Bool} {m m' : Machine} {α : Type}
  {t : Task (Except Fault α)} {moves : List Move}

/-- Nothing, or a step by which the log is begun. -/
def AuditLog.Begins (log : AuditLog) (f : Machine → Machine) : Prop :=
  f = id ∨ log.enabled = true ∧
    ((∃ dir, Path.parent? log.path = some dir ∧ f = Machine.after (.makeDirs dir)) ∨
      f = Machine.after (.appendFile log.path .empty))

/-- The same moves, but when the request has had its turn time passes, and the log may be begun. -/
inductive Begun (log : AuditLog) : List Move → List Move → Prop
  | nil : Begun log [] []
  | step (mv : Move) {moves moves' : List Move} (rest : Begun log moves moves') :
      Begun log (mv :: moves) (mv :: moves')
  | turn (nanos : Nat) {f : Machine → Machine} (begins : log.Begins f) {moves moves' : List Move}
      (rest : Begun log moves moves') :
      Begun log (.front :: moves) (.front :: .other (Machine.passing nanos) :: .other f :: moves')

/-- A task that waits for a job or has ended. -/
def Task.IsStill {β : Type} (t : Task β) : Prop :=
  (∃ job deadline next, t.phase = .awaiting job deadline next) ∨ ∃ b, t.phase = .ended b

theorem Machine.SameBut.stepTask_eq_none {name : String} {β : Type} {idle : Task β}
    (h : m.SameBut free name m') (hstill : idle.IsStill) (hnone : m'.stepTask idle = none) :
    m.stepTask idle = none := by
  rcases hstill with ⟨job, deadline, next, hphase⟩ | ⟨b, hphase⟩
  · have hcancelled : (m'.passing callCost).isCancelled idle =
        (m.passing callCost).isCancelled idle :=
      (h.tick callCost).isCancelled idle
    rw [stepTask_awaiting hphase, h.jobResult?, hcancelled, h.now] at hnone
    rw [stepTask_awaiting hphase]
    cases hjob : m.jobResult? job with
    | some r =>
      rw [hjob] at hnone
      cases hnone
    | none =>
      rw [hjob] at hnone
      dsimp only at hnone ⊢
      split at hnone
      · cases hnone
      rename_i hgoes
      split at hnone
      · cases hnone
      rename_i hearly
      rw [if_neg hgoes, if_neg hearly]
  · simp only [Machine.stepTask, hphase]

/-- The task has ended with a fault, or takes its leave with it in so many steps at most. -/
def Task.Leaves (log : AuditLog) (fault : Fault) (n : Nat) (t : Task (Except Fault α)) : Prop :=
  t.phase = .ended (.error fault) ∨ ∃ p i, n = i + 1 ∧ t.phase = .ready p ∧ log.Leaves fault i p

theorem Task.Leaves.eq_of_ended {r : Except Fault α} (h : t.Leaves log fault n)
    (hr : t.phase = .ended r) : r = .error fault := by
  rcases h with hended | ⟨p, i, -, hready, -⟩
  · exact Phase.ended.inj (hr.symm.trans hended)
  rw [hready] at hr
  cases hr

theorem Task.Leaves.ended (h : t.Leaves log fault 0) : t.phase = .ended (.error fault) := by
  rcases h with hended | ⟨p, i, hzero, -⟩
  · exact hended
  · cases hzero

theorem Machine.SameBut.report (h : m.SameBut free "generate" m') (hc : log.IsReport c)
    (hadds : log.enabled = true → ∀ path bytes, c = .appendFile path bytes →
    m'.files.opensOnly m'.cwd path free = true) :
    ∃ f m₁ r, log.Begins f ∧ m'.answer? c = some (m₁, r) ∧ (f m).SameBut free "generate" m₁ := by
  cases c with
  | clock | today => exact ⟨id, m', _, .inl rfl, rfl, h⟩
  | warn message fields =>
    cases h with
    | intro ignores files samples commands =>
      exact ⟨id, _, (), .inl rfl, rfl, .intro ignores files samples commands⟩
  | record operation elapsed =>
    obtain rfl : operation = "generate" := hc
    cases h with
    | intro ignores files samples commands =>
      exact ⟨id, _, (), .inl rfl, rfl,
        .intro ignores files (Metrics.agreeBut_record samples elapsed) commands⟩
  | makeDirs dir =>
    obtain ⟨x, y, hx, hy, -, hsame⟩ := h.answer? (c := .makeDirs dir) trivial rfl
    refine ⟨_, y.1, y.2, .inr ⟨hc.1, .inl ⟨dir, hc.2, rfl⟩⟩, hy, ?_⟩
    rw [after, hx]
    exact hsame
  | appendFile path bytes =>
    obtain ⟨henabled, rfl⟩ := hc
    have hopens : m.files.opensOnly m.cwd log.path free = true := by
      rw [← h.files.opensOnly, ← h.cwd]
      exact hadds henabled _ _ rfl
    have hedit : Alike (Files.Grown free) (m.files.append m.cwd log.path .empty)
        (m'.files.append m.cwd log.path bytes) :=
      h.files.edit (fun old new hpart => hpart.append (nil_sublist _)) (.inr hopens)
    have hsame : Agree free "generate" (m.changing fun fs cwd => fs.append cwd log.path .empty)
        (m'.changing fun fs cwd => fs.append cwd log.path bytes) := h.changing hedit
    exact ⟨_, _, _, .inr ⟨henabled, .inr rfl⟩, rfl, hsame.2⟩
  | _ => exact hc.elim

theorem Machine.begin_of_report (hc : log.IsReport c)
    {next : c.Reply → Program (Except Fault α)} {m₁ : Machine} {r : c.Reply}
    (h : m.answer? c = some (m₁, r)) : m.begin_ t c next =
    (m₁, { t with phase := .ready (next r) }) := by
  cases c with
  | clock | today | warn | record | makeDirs | appendFile => simp only [begin_, h]
  | _ => exact hc.elim

/-- A turn of a request that takes its leave does no more than begin the log. -/
theorem Foreground.front_leaves (h : m.SameBut free "generate" m') (ht : t.Leaves log fault n)
    (hadds : log.enabled = true → addsOnlyTo free ⟨m', t⟩ = true) : ∃ nanos f, log.Begins f ∧
    (f (m.passing nanos)).SameBut free "generate" (Foreground.move ⟨m', t⟩ .front).machine ∧
    (Foreground.move ⟨m', t⟩ .front).request.Leaves log fault (n - 1) := by
  rcases ht with hended | ⟨p, i, rfl, hready, hp⟩
  · have hstep : m'.stepTask t = none := by simp only [Machine.stepTask, hended]
    simp only [Foreground.move, hstep]
    exact ⟨0, id, .inl rfl, h, .inl hended⟩
  · have htick := h.tick callCost
    cases p with
    | done r =>
      obtain rfl := hp.done
      simp only [Foreground.move, Machine.stepTask, hready]
      exact ⟨callCost, id, .inl rfl, htick, .inl rfl⟩
    | call c next =>
      obtain ⟨hc, i, rfl, hnext⟩ := hp.call
      have hopens (henabled : log.enabled = true) (path : String) (bytes : ByteArray)
          (hcall : c = .appendFile path bytes) :
          m'.files.opensOnly m'.cwd path free = true := by
        subst hcall
        simpa only [addsOnlyTo, hready] using hadds henabled
      obtain ⟨f, m₁, r, hf, hanswer, hsame⟩ := htick.report hc hopens
      simp only [Foreground.move, Machine.stepTask, hready, begin_of_report hc hanswer]
      exact ⟨callCost, f, hf, hsame, .inr ⟨next r, i, rfl, rfl, hnext r⟩⟩

/-- While a request takes its leave all others do what they do beside one that has to wait whenever
it would have been its turn. -/
theorem Foreground.run_leaves (h : m.SameBut free "generate" m') (ht : t.Leaves log fault n)
    (hmoves : Along (fun y mv => mv.isFront = false → y.Overlooks free "generate" mv)
    ⟨m', t⟩ moves)
    (hadds : log.enabled = true → AtTurns (addsOnlyTo free) ⟨m', t⟩ moves) :
    (Foreground.run ⟨m', t⟩ moves).request.Leaves log fault (n - moves.countP Move.isFront) ∧
    ∃ begun, Begun log moves begun ∧ ∀ {β : Type} (idle : Task β), idle.IsStill →
    AtTurns (idles idle) ⟨m', t⟩ moves → Waits ⟨m, idle⟩ begun ∧
    (Foreground.run ⟨m, idle⟩ begun).machine.SameBut free "generate"
    (Foreground.run ⟨m', t⟩ moves).machine := by
  induction moves generalizing m m' t n with
  | nil => exact ⟨ht, [], .nil, fun idle _ _ => ⟨trivial, h⟩⟩
  | cons mv moves ih =>
    obtain ⟨hmove, hmoves⟩ := hmoves
    have hlater (henabled : log.enabled = true) := (hadds henabled).2
    cases mv with
    | front =>
      obtain ⟨nanos, f, hf, hsame, hleaves⟩ :=
        front_leaves h ht fun henabled => (hadds henabled).1 rfl
      obtain ⟨hend, begun, hbegun, hrun⟩ := ih hsame hleaves hmoves hlater
      refine ⟨?_, _, .turn nanos hf hbegun, fun idle hstill hidles => ?_⟩
      · rw [countP_cons_of_pos rfl, Nat.add_comm, ← Nat.sub_sub]
        exact hend
      have hnow := h.stepTask_eq_none hstill (Option.isNone_iff_eq_none.mp (hidles.1 rfl))
      obtain ⟨hwaits, hsame'⟩ := hrun idle hstill hidles.2
      obtain ⟨hwaits', hturn⟩ := waits_turn hnow hwaits
      rw [hturn]
      exact ⟨hwaits', hsame'⟩
    | jobs | processes | other =>
      obtain ⟨hend, begun, hbegun, hrun⟩ := ih (hmove rfl m h) ht hmoves hlater
      refine ⟨hend, _, .step _ hbegun, fun idle hstill hidles => ?_⟩
      obtain ⟨hwaits, hsame⟩ := hrun idle hstill hidles.2
      exact ⟨⟨Bool.noConfusion, hwaits⟩, hsame⟩

end Leaving

/-- The number of the log's file, if a log is kept. -/
def AuditLog.file (log : AuditLog) (k : Nat) : Nat → Bool := fun id => log.enabled && id == k

namespace Service

variable {s : Service} {request : Request} {job deadline : Nat} {groups : List Nat} {m : Machine}
  {t : Task (Except Fault Generated)} {next : JobReply → Program (Except Fault Generated)}

/-- The step in which a request gives up waiting. -/
theorem stepTask_gaveUp (request : Request) (hwaits : t.phase = .awaiting job deadline next)
    (hjob : m.jobResult? job = none) (hstop : m.isCancelled t = true ∨ deadline ≤ m.now) :
    ∃ reply fault, gaveUp? request reply = some fault ∧ (fault = .cancelled ∧ t.cancelAt ≠ none ∨
    fault = .timeout "template" request.timeout.toSeconds ∧ m.isCancelled t = false) ∧
    m.stepTask t = some (m.passing callCost, { t with phase := .ready (next reply) }) := by
  have hlater : m.isCancelled t = true → (m.passing callCost).isCancelled t = true := by
    unfold isCancelled
    cases t.cancelAt with
    | none => exact id
    | some at_ =>
      intro hnow
      have hle : at_ ≤ m.now := by simpa using hnow
      exact decide_eq_true (hle.trans (Nat.le_add_right _ _))
  have hstep := stepTask_awaiting (m := m) hwaits
  rw [hjob] at hstep
  by_cases hcancelled : (m.passing callCost).isCancelled t = true
  · refine ⟨.cancelled, .cancelled, rfl, .inl ⟨rfl, ?_⟩, ?_⟩
    · intro hnone
      simp [isCancelled, hnone] at hcancelled
    · rw [hstep, if_pos hcancelled]
  · have hnot : m.isCancelled t = false := by simpa using mt hlater hcancelled
    have hdeadline : deadline ≤ m.now := by simpa [hnot] using hstop
    refine ⟨.expired, _, rfl, .inr ⟨rfl, hnot⟩, ?_⟩
    rw [hstep, if_neg hcancelled, if_pos (hdeadline.trans (Nat.le_add_right _ _))]

/-- A request waits for the build of the template. If it is dropped, jobs, processes and all others
go on as they do beside a request that still waits. So they do if its time runs out or it is
cancelled: the machines then differ in nothing but the samples and warnings of the request and in
what is in the log, where nothing is missing. The log may have been begun by the request, and nobody
may read it; where no log is kept commands can do what they like. The request itself ends with its
fault within ten of its turns. -/
theorem build_goes_on_without_request (k : Nat)
    (hrequest : Machine.Follows (s.generateRequest request).run groups m t)
    (hwaits : t.phase = .awaiting job deadline next)
    (hbuilds : ∀ j ∈ m.jobs, ∃ groups m₀, Machine.Follows s.ensureTemplate.run groups m₀ j.task) :
    (∀ (moves : List Move) (patient : Task (Except Fault Generated)) (r : Except Fault Generated),
      Foreground.Waits ⟨m, patient⟩ moves →
      (Foreground.run ⟨m.abandon t, { phase := .ended r }⟩ moves).machine =
        (Foreground.run ⟨m, patient⟩ moves).machine) ∧
    ∀ moves : List Move, m.jobResult? job = none →
      m.isCancelled t = true ∨ deadline ≤ m.now →
      (s.audit.enabled = true →
        Foreground.Unread (s.audit.file k) "generate" ⟨m, t⟩ (.front :: moves)) →
      (s.audit.enabled = true →
        Foreground.AtTurns (Foreground.addsOnlyTo (s.audit.file k)) ⟨m, t⟩ (.front :: moves)) →
      Foreground.Along
        (fun y mv => ∀ f, mv = .other f → y.Overlooks (s.audit.file k) "generate" mv)
        ⟨m, t⟩ (.front :: moves) →
      ∃ fault, (fault = .cancelled ∧ t.cancelAt ≠ none ∨
          fault = .timeout "template" request.timeout.toSeconds ∧ m.isCancelled t = false) ∧
        (∀ r, (Foreground.run ⟨m, t⟩ (.front :: moves)).request.phase = .ended r →
          r = .error fault) ∧
        (9 ≤ moves.countP Move.isFront →
          (Foreground.run ⟨m, t⟩ (.front :: moves)).request.phase = .ended (.error fault)) ∧
        ∃ begun, Begun s.audit (.front :: moves) begun ∧
          ∀ patient : Task (Except Fault Generated), patient.IsStill →
            Foreground.AtTurns (Foreground.idles patient) ⟨m, t⟩ (.front :: moves) →
            Foreground.Waits ⟨m, patient⟩ begun ∧
              (Foreground.run ⟨m, patient⟩ begun).machine.SameBut (s.audit.file k) "generate"
                (Foreground.run ⟨m, t⟩ (.front :: moves)).machine := by
  obtain ⟨past, rest, hof, hawaits, hdebts⟩ := hrequest.stands.course
  rw [hwaits] at hawaits
  cases hawaits
  obtain ⟨hnothing, hleaves⟩ := leaves_of_awaiting hof
  constructor
  · intro moves patient r hpatient
    have hdropped : m.abandon t = m := by
      unfold Machine.abandon
      rw [hwaits, hdebts, hnothing]
      rfl
    rw [hdropped]
    exact Foreground.machine_of_waits hpatient r
  intro moves hjob hstop hunread hadds hothers
  obtain ⟨reply, fault, hfault, hcase, hstep⟩ := stepTask_gaveUp request hwaits hjob hstop
  -- without a log no file is free, and there is nothing to read
  have hunread : Foreground.Unread (s.audit.file k) "generate" ⟨m, t⟩ (.front :: moves) := by
    cases henabled : s.audit.enabled with
    | true => exact hunread henabled
    | false =>
      have hnone : s.audit.file k = fun _ => false := by
        funext id
        rw [AuditLog.file, henabled, Bool.false_and]
      rw [hnone]
      exact Foreground.unread_none _ _
  have hmoves : Foreground.Along
      (fun y mv => mv.isFront = false → y.Overlooks (s.audit.file k) "generate" mv)
      ⟨m, t⟩ (.front :: moves) := by
    refine hunread.processes.combine (fun y mv hprocesses hother hnot => ?_) hothers
    cases mv with
    | front => cases hnot
    | jobs => exact y.overlooks_jobs
    | processes => exact hprocesses rfl
    | other f => exact hother f rfl
  have hignores : m.Ignores (s.audit.file k) := by
    refine ⟨hunread.unopened, hunread.launch, fun j hj => ?_⟩
    obtain ⟨groups, m₀, hfollows⟩ := hbuilds j hj
    exact hfollows.isHeedless s.heedless_ensureTemplate
  have hself : m.SameBut (s.audit.file k) "generate" m :=
    .intro hignores hunread.inert.grown ⟨rfl, fun _ _ => rfl⟩ rfl
  have hfront : Foreground.move ⟨m, t⟩ .front =
      ⟨m.passing Machine.callCost, { t with phase := .ready (next reply) }⟩ := by
    simp only [Foreground.move, hstep]
  have hleaving : Task.Leaves s.audit fault 9
      ({ t with phase := .ready (next reply) } : Task (Except Fault Generated)) :=
    Or.inr ⟨next reply, 8, rfl, rfl, hleaves reply fault hfault⟩
  simp only [Foreground.run_cons, Foreground.AtTurns, Foreground.Along, hfront] at hmoves hadds ⊢
  obtain ⟨hend, begun, hbegun, hbeside⟩ :=
    Foreground.run_leaves (hself.tick Machine.callCost) hleaving hmoves.2
      fun henabled => (hadds henabled).2
  refine ⟨fault, hcase, fun r => hend.eq_of_ended, fun hturns => ?_, _,
    .turn Machine.callCost (Or.inl rfl) hbegun, fun patient hstill hidles => ?_⟩
  · rw [Nat.sub_eq_zero_of_le hturns] at hend
    exact hend.ended
  obtain ⟨hwaits, hsame⟩ := hbeside patient hstill hidles.2
  obtain ⟨hwaits', hturn⟩ :=
    Foreground.waits_turn (f := Machine.passing Machine.callCost) (g := id)
      (Option.isNone_iff_eq_none.mp (hidles.1 rfl)) hwaits
  exact ⟨hwaits', hturn ▸ hsame⟩

/-- A service that keeps a log. -/
def talkative : Service :=
  { modest with
    audit := ⟨true, "log"⟩
    template := { modest.template with buildTimeout := ⟨5000000000⟩ } }

/-- A build that takes two seconds and then leaves a mark if there is a log. -/
def watchful : Process :=
  .sleep 2000000000 (.act fun _ κ =>
    (if κ.files.isFile κ.cwd "log" then
      { κ with files := (κ.files.write κ.cwd "kit/seen" .empty).toOption.getD κ.files }
    else κ, .exit 0))

/-- A machine on which the template is built so. -/
def watched : Machine :=
  { Machine.bare with
    kernel := .boot 4711 {} []
    job := talkative.ensureTemplate.run
    launch := fun _ command =>
      .ok fun _ => if command.stage = "template build" then watchful else .exit 0 }

/-- A machine on which the template takes as long, and nobody looks at the log. -/
def unwatched : Machine :=
  { watched with
    runner := .scripted [("template build",
      [fun _ _ => { rest := ⟨2000000000⟩, outcome := .ok ⟨0, .empty, .empty⟩ }])] }

/-- A request that is cancelled while it waits for the template. -/
def cancelledAtWait : Foreground (Except Fault Generated) :=
  Foreground.run
    ⟨unwatched, .ofProgram (talkative.generateRequest ⟨"x", ⟨9000000000⟩⟩).run (some 0)⟩
    (List.replicate 5 .front)

/-- It takes its leave while the template is begun, and then the template is finished. -/
def leavingMoves : List Move :=
  (List.replicate 9 [.jobs, .front]).flatten ++ List.replicate 8 .jobs ++
    .other (Machine.passing 3000000000) :: List.replicate 12 .jobs

theorem follows_fronts {α : Type} {p : Program α} {t : Task α} (n : Nat)
    (h : Machine.Follows p groups m t) :
    ∃ groups', Machine.Follows p groups' (Foreground.run ⟨m, t⟩ (List.replicate n .front)).machine
    (Foreground.run ⟨m, t⟩ (List.replicate n .front)).request := by
  induction n generalizing groups m t with
  | zero => exact ⟨groups, h⟩
  | succ n ih =>
    rw [replicate_succ, Foreground.run_cons]
    cases hstep : m.stepTask t with
    | none =>
      simp only [Foreground.move, hstep]
      exact ih h
    | some next =>
      simp only [Foreground.move, hstep]
      exact ih (h.step hstep)

/-- The template of a cancelled request is finished, as it is beside one that waits on. -/
theorem build_goes_on_without_request_cancelled :
    (Foreground.run cancelledAtWait (.front :: leavingMoves)).request.phase =
        .ended (.error .cancelled) ∧
      (Foreground.run cancelledAtWait (.front :: leavingMoves)).files.namesAt
        ["kit"] = ["m", "s", ".kiln-ready"] ∧
      ∃ begun, Begun talkative.audit (.front :: leavingMoves) begun ∧
        Foreground.Waits
          ⟨cancelledAtWait.machine, { cancelledAtWait.request with cancelAt := none }⟩ begun ∧
        (Foreground.run ⟨cancelledAtWait.machine, { cancelledAtWait.request with cancelAt := none }⟩
          begun).machine.SameBut (talkative.audit.file 1) "generate"
          (Foreground.run cancelledAtWait (.front :: leavingMoves)).machine ∧
        ∀ r : Except Fault Generated,
          (Foreground.run ⟨cancelledAtWait.machine.abandon cancelledAtWait.request,
            { phase := .ended r }⟩ begun).machine =
          (Foreground.run ⟨cancelledAtWait.machine,
            { cancelledAtWait.request with cancelAt := none }⟩ begun).machine := by
  obtain ⟨groups, hfollows⟩ := follows_fronts 5
    (.start (p := (talkative.generateRequest ⟨"x", ⟨9000000000⟩⟩).run) unwatched (some 0))
  obtain ⟨next, hnext⟩ : ∃ next, cancelledAtWait.request.phase = .awaiting 0 9000020000 next :=
    ⟨_, rfl⟩
  have hjobs : cancelledAtWait.jobs = [⟨0, .ofProgram talkative.ensureTemplate.run⟩] := rfl
  have hbuilds : ∀ j ∈ cancelledAtWait.jobs,
      ∃ groups m₀, Machine.Follows talkative.ensureTemplate.run groups m₀ j.task := by
    intro j hj
    rw [hjobs, List.mem_singleton] at hj
    exact ⟨[], unwatched, hj ▸ .start unwatched none⟩
  have hprocesses : Move.processes ∉ .front :: leavingMoves := by simp [leavingMoves]
  have hpassing : ∀ f, .other f ∈ .front :: leavingMoves → f = Machine.passing 3000000000 := by
    intro f hf
    simpa [leavingMoves] using hf
  have hunread : Foreground.Unread (talkative.audit.file 1) "generate" cancelledAtWait
      (.front :: leavingMoves) := by
    have hfiles : cancelledAtWait.files = {} := rfl
    have hstreams : cancelledAtWait.streams = [] := rfl
    refine ⟨fun p n hn => ?_, fun stream id position appending hstream => ?_,
      fun _ _ _ _ _ => rfl, Foreground.along_of_mem (fun mv hmv y hturn => ?_) _⟩
    · rw [hfiles] at hn
      by_cases hp : p = []
      · subst hp
        cases hn
        trivial
      · rw [Files.get?_of_ne _ hp] at hn
        cases hn
    · rw [hstreams] at hstream
      cases hstream
    subst hturn
    exact absurd hmv hprocesses
  have hadds : Foreground.AtTurns (Foreground.addsOnlyTo (talkative.audit.file 1)) cancelledAtWait
      (.front :: leavingMoves) := by
    decide +kernel
  have hothers : Foreground.Along
      (fun y mv => ∀ f, mv = .other f → y.Overlooks (talkative.audit.file 1) "generate" mv)
      cancelledAtWait (.front :: leavingMoves) := by
    refine Foreground.along_of_mem (fun mv hmv y f hf => ?_) _
    subst hf
    rw [hpassing f hmv]
    exact fun m hm => hm.tick 3000000000
  obtain ⟨hdropped, hstopped⟩ := build_goes_on_without_request 1 hfollows hnext hbuilds
  obtain ⟨fault, hfault, -, hended, begun, hbegun, hpatient⟩ := hstopped leavingMoves rfl
    (Or.inl rfl) (fun _ => hunread) (fun _ => hadds) hothers
  obtain rfl : fault = .cancelled := by
    rcases hfault with ⟨rfl, -⟩ | ⟨-, hnot⟩
    · rfl
    · cases hnot
  obtain ⟨hwaits, hsame⟩ := hpatient { cancelledAtWait.request with cancelAt := none }
    (Or.inl ⟨_, _, next, hnext⟩) (by decide +kernel)
  exact ⟨hended (by decide), by decide +kernel, begun, hbegun, hwaits, hsame,
    fun r => hdropped begun _ r hwaits⟩

/-! ## What a build can see -/

/-- What is in the template in the end, if the request for it is cancelled at a time. -/
def namesBuilt (cancelAt : Option Nat) : Option (List String) :=
  match watched.runTask none none 200
      (.ofProgram (talkative.generateRequest ⟨"x", ⟨9000000000⟩⟩).run cancelAt) with
  | (m, .ended _) => some ((m.settleJobs 200).files.namesAt ["kit"])
  | _ => none

/-- The report of a request that was cancelled begins the log, and the build finds it. -/
theorem report_of_request_seen_by_build :
    namesBuilt none = some ["m", "s", ".kiln-ready"] ∧
      namesBuilt (some 1000000000) = some ["m", "s", "seen", ".kiln-ready"] := by
  decide +kernel

end Service

end Foundry
