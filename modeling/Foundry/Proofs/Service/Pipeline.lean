import Foundry.Proofs.Service.Phases

/-!
# What a request comes to

A request that the cache does not answer runs at most three commands: one that builds
the template, one that builds the workspace and one that runs what was built. The
replies to the last two decide the outcome, and only an output is stored.
-/

namespace Foundry

open Program List Call

/-- Calls that neither move a file nor concern a job. -/
def Call.IsStaged (c : Call) : Prop := c.kind ≠ .move ∧ c.kind ≠ .job

/-! ## The template -/

/-- The command is run at most once, and no other is run. -/
def RunsAtMost (command : Command) (es : List Event) : Prop :=
  runsOf es = [] ∨ ∃ timeout r, runsOf es = [⟨.run command timeout, r⟩]

namespace Template

variable {t : Template} {es : List Event} {r : Except Fault Bool} {α : Type} {p : Program α}
  {ends : Bool → α → Prop} {ran : Bool}

/-- What a builder calls for before and after its command. -/
def Prepares : Call → Prop
  | .makeDirs _ | .writeFile .. | .removeTree _ | .warn .. => True
  | .openLock _ | .lock .. | .ownPid | .markLock .. | .closeLock _ => True
  | _ => False

/-- The calls of a builder. -/
def Builds (t : Template) : Call → Prop
  | .run command _ => command = t.command
  | .isFile _ | .today | .owe _ | .settle => True
  | c => Prepares c

theorem prepares_acquire (t : Template) : t.acquire.run.Only Prepares := by
  apply Action.only_bind (only_makeParent (fun _ => trivial) _)
  intro _
  apply Action.only_bind (Action.only_orFail (only_ask (c := .openLock _) trivial))
  intro handle
  apply Action.only_lift_bind (only_ask (c := .lock _ _) trivial)
  intro r
  cases r with
  | acquired =>
    apply Action.only_lift_bind (only_ask (c := .ownPid) trivial)
    intro pid
    apply Action.only_lift_bind (only_ask (c := .markLock _ _) trivial)
    intro marked
    cases marked with
    | ok _ => exact only_done _
    | error e =>
      exact Action.only_lift_bind (only_ask (c := .closeLock _) trivial) fun _ => only_done _
  | stillHeld =>
    exact Action.only_lift_bind (only_ask (c := .warn _ _) trivial) fun _ => only_done _
  | failed e =>
    exact Action.only_lift_bind (only_ask (c := .closeLock _) trivial) fun _ => only_done _

theorem prepares_discard (t : Template) : t.discard.Only Prepares := by
  apply (only_ask (c := .removeTree _) trivial).bind
  intro r
  cases r with
  | ok _ => exact only_done _
  | error e =>
    dsimp only
    split
    · exact only_ask (c := .warn _ _) trivial
    · exact only_done _

theorem prepares_writeFiles (t : Template) : t.writeFiles.run.Only Prepares := by
  apply Action.only_bind (only_makeParent (fun _ => trivial) _)
  intro _
  apply Action.only_bind (Action.only_orFail (only_ask (c := .writeFile _ _) trivial))
  intro _
  exact Action.only_orFail (only_ask (c := .writeFile _ _) trivial)

theorem prepares_pay (path : String) (handle : Nat) :
    (Debt.lock path handle).pay.Only Prepares := by
  apply (only_ask (c := .markLock _ _) trivial).bind
  intro marked
  have hclose : (ask (.closeLock handle)).Only Prepares := only_ask trivial
  cases marked with
  | ok _ => exact hclose
  | error e => exact (only_ask (c := .warn _ _) trivial).bind fun _ => hclose

/-- The rules of a builder, which runs its command once. -/
def onceRules (t : Template) : Discipline Bool where
  may ran c := t.Builds c ∧ (c.kind = .command → ran = false)
  hears _ _ _ := True
  after ran c _ := ran || c.kind = .command

/-- What a builder calls for besides its command. -/
def IsAround (t : Template) (c : Call) : Prop := t.Builds c ∧ c.IsPlain

theorem Prepares.isAround (t : Template) (c : Call) (h : Prepares c) : t.IsAround c := by
  cases c with
  | makeDirs | writeFile | removeTree | warn | openLock | lock | ownPid | markLock | closeLock =>
    exact ⟨trivial, rfl⟩
  | _ => exact h.elim

theorem once_of_around (h : p.Only t.IsAround) (ran : Bool) :
    p.Obeys t.onceRules (fun y _ => y = ran) ran :=
  h.obeys fun c hc => ⟨⟨hc.1, by simp [hc.2]⟩, fun _ => by simp [onceRules, hc.2]⟩

theorem once_of_prepares (h : p.Only Prepares) (ran : Bool) :
    p.Obeys t.onceRules (fun y _ => y = ran) ran :=
  once_of_around (h.mono (Prepares.isAround t)) ran

/-- A build runs its command once it has written its files. -/
theorem once_build (t : Template) : t.build.run.Obeys t.onceRules (fun _ _ => True) false := by
  apply Action.obeys_lift_bind (once_of_prepares t.prepares_discard false)
  rintro _ _ rfl
  refine Action.obeys_bind (once_of_prepares t.prepares_writeFiles false) ?_ fun _ _ _ => trivial
  rintro _ _ rfl
  have hrun : (execute t.command t.buildTimeout).run.Obeys t.onceRules (fun y _ => y = true)
      false :=
    obeys_ask (c := .run t.command t.buildTimeout) ⟨rfl, fun _ => rfl⟩ fun _ _ => rfl
  apply Action.obeys_lift_bind hrun
  rintro _ reply rfl
  refine obeys_mono (once_of_around ?_ true) fun _ _ _ => trivial
  cases reply with
  | error fault => cases fault <;> exact only_done _
  | ok result =>
    dsimp only
    split
    · exact only_done _
    apply Action.only_lift_bind (only_ask (c := .today) ⟨trivial, rfl⟩)
    intro now
    exact Action.only_orFail (only_ask (c := .writeFile _ _) ⟨trivial, rfl⟩)

theorem once_buildIfMissing (t : Template) :
    t.buildIfMissing.Obeys t.onceRules (fun _ _ => True) false := by
  apply obeys_bind (once_of_around (only_ask (c := .isFile _) ⟨trivial, rfl⟩) false)
  rintro _ ready rfl
  cases ready with
  | true => exact obeys_done.mpr trivial
  | false =>
    apply obeys_bind t.once_build
    intro ran result _
    cases result with
    | ok _ => exact obeys_done.mpr trivial
    | error fault =>
      exact obeys_bind (once_of_prepares t.prepares_discard ran) fun _ _ _ => obeys_done.mpr trivial

theorem once_ensure (t : Template) : t.ensure.run.Obeys t.onceRules (fun _ _ => True) false := by
  apply Action.obeys_lift_bind (once_of_around (only_ask (c := .isFile _) ⟨trivial, rfl⟩) false)
  rintro _ ready rfl
  cases ready with
  | true => exact obeys_done.mpr trivial
  | false =>
    refine Action.obeys_bind (once_of_prepares t.prepares_acquire false) ?_ fun _ _ _ => trivial
    rintro _ holding rfl
    cases holding with
    | none => exact t.once_buildIfMissing
    | some handle =>
      apply obeys_bind (once_of_around (only_ask (c := .owe _) ⟨trivial, rfl⟩) false)
      rintro _ _ rfl
      apply obeys_bind t.once_buildIfMissing
      intro ran result _
      refine obeys_mono (once_of_around ?_ ran) fun _ _ _ => trivial
      exact (only_ask (c := .settle) ⟨trivial, rfl⟩).bind fun _ =>
        ((prepares_pay t.lockPath handle).mono (Prepares.isAround t)).bind fun _ => only_done _

theorem builds_of_once (h : p.Obeys t.onceRules ends ran) : p.Only t.Builds := by
  induction p generalizing ran with
  | done a => exact only_done a
  | call c next ih =>
    obtain ⟨hc, hnext⟩ := obeys_call.mp h
    exact obeys_call.mpr ⟨hc.1, fun r _ => ih r (hnext r trivial)⟩

/-- A command that is run once is run at most once more. -/
theorem runsAtMost_of_once {a : α} (h : Course p es a) (hp : p.Obeys t.onceRules ends ran) :
    (ran = true → runsOf es = []) ∧ RunsAtMost t.command es := by
  induction h generalizing ran with
  | done => exact ⟨fun _ => rfl, .inl rfl⟩
  | @call c next es a r rest ih =>
    obtain ⟨⟨hbuilds, hfirst⟩, hnext⟩ := obeys_call.mp hp
    obtain ⟨hlater, hmost⟩ := ih (hnext r trivial)
    by_cases hc : c.kind = .command
    · refine ⟨fun hran => absurd (hfirst hc) (by simp [hran]), .inr ?_⟩
      cases c with
      | run command timeout =>
        obtain rfl : command = t.command := hbuilds
        exact ⟨timeout, r, congrArg _ (hlater (by simp [onceRules, hc]))⟩
      | _ => cases hc
    · have hruns : runsOf (⟨c, r⟩ :: es) = runsOf es := filter_cons_of_neg (by simpa using hc)
      rw [RunsAtMost, hruns]
      exact ⟨fun hran => hlater (by simp [onceRules, hran]), hmost⟩

end Template

namespace Service

variable {s : Service} {request : Request} {own job looked rest : List Event} {start begun : Nat}
  {result : Except Fault String} {outcome : Except Fault Generated} {r : Except Fault Bool}

/-- A job makes sure of the template, and records a build. -/
theorem course_ensureTemplate (h : Course s.ensureTemplate.run job r) :
    ∃ t ensured rest ended, job = ⟨.clock, t⟩ :: (ensured ++ rest) ∧
    Course s.template.ensure.run ensured ended ∧
    ((∃ fault, r = .error fault ∧ rest = []) ∨ ∃ built t' told, r = .ok built ∧
      rest = ⟨.clock, t'⟩ :: ⟨.record "template_ensure" ⟨t' - t⟩, ()⟩ :: told ∧
      Course (s.auditBuilt built) told ()) := by
  obtain ⟨t, rest, rfl, hrest⟩ := Action.course_ask_bind.mp h
  rcases Action.course_bind.mp hrest with ⟨ensured, rest₁, built, rfl, hensure, hrest₁⟩ |
    ⟨fault, rfl, hensure⟩
  · obtain ⟨read, rest₂, elapsed, rfl, hread, hrest₂⟩ := Action.course_lift_bind.mp hrest₁
    obtain ⟨t', rfl, rfl⟩ := course_elapsedSince.mp hread
    obtain ⟨⟨⟩, rest₃, rfl, hrest₃⟩ := Action.course_ask_bind.mp hrest₂
    obtain ⟨told, rest₄, ⟨⟩, rfl, htold, hrest₄⟩ := Action.course_lift_bind.mp hrest₃
    obtain ⟨rfl, rfl⟩ := course_done.mp hrest₄
    exact ⟨t, ensured, _, _, rfl, hensure, .inr ⟨built, t', told, rfl, by simp, htold⟩⟩
  · exact ⟨t, rest, [], _, by simp, hensure, .inl ⟨fault, rfl, rfl⟩⟩

theorem tells_auditBuilt (s : Service) (built : Bool) :
    (s.auditBuilt built).Only AuditLog.Tells := by
  unfold auditBuilt
  split
  · exact s.audit.tells_record _
  · exact only_done _

theorem runsAtMost_ensureTemplate (h : Course s.ensureTemplate.run job r) :
    RunsAtMost s.template.command job := by
  obtain ⟨t, ensured, rest, ended, rfl, hensure, hrest⟩ := course_ensureTemplate h
  have hended : runsOf rest = [] := by
    rcases hrest with ⟨fault, -, rfl⟩ | ⟨built, t', told, -, rfl, htold⟩
    · rfl
    have hplain : ∀ e ∈ told, e.call.IsPlain := fun e he =>
      (htold.only (s.tells_auditBuilt built) e he).isPlain
    exact (runsOf_of_plain hplain : runsOf told = [])
  have hruns : runsOf (⟨.clock, t⟩ :: (ensured ++ rest)) = runsOf ensured :=
    (runsOf_append ensured rest).trans (by rw [hended, append_nil])
  rw [RunsAtMost, hruns]
  exact (Template.runsAtMost_of_once hensure s.template.once_ensure).2

/-- The events of the job that a request has waited for; a request that starts none has none. -/
def JobOf (s : Service) (own job : List Event) : Prop :=
  (∃ n deadline result, (⟨.awaitJob n deadline, .finished result⟩ : Event) ∈ own ∧
    Course s.ensureTemplate.run job result) ∨
  (∀ n, (⟨.startJob, n⟩ : Event) ∉ own) ∧ job = []

theorem JobOf.runsAtMost (h : s.JobOf own job) : RunsAtMost s.template.command job := by
  rcases h with ⟨_, _, _, -, hjob⟩ | ⟨-, rfl⟩
  · exact runsAtMost_ensureTemplate hjob
  · exact .inl rfl

/-! ## The outcome -/

/-- A look into the cache records its own time, and does nothing else of note. -/
theorem calls_of_lookup {source : String} {found : Option String}
    (h : Course (s.lookup source) looked found) :
    ∀ e ∈ looked, e.call.IsPlain ∨ ∃ d, e.call = .record "cache_lookup" d := by
  rcases course_lookup h with ⟨-, rfl, -⟩ | ⟨-, t, t', consulted, advised, hget, -, rfl⟩
  · simp
  simp only [forall_mem_cons, forall_mem_append]
  exact ⟨.inl rfl, ⟨fun e he => .inl (hget.only (s.cache.only_get source) e he).isPlain,
    fun e he => .inl (advised.only_report _ (fun _ _ => rfl) e he)⟩, .inl rfl,
    .inr ⟨_, rfl⟩, by simp⟩

/-- What follows the miss of a lookup. -/
theorem course_after_miss (h : Course (s.generateRequest request).run
    (⟨.clock, start⟩ :: (looked ++ rest)) outcome)
    (hmiss : Course (s.lookup request.source) looked none) :
    ∃ work result t closing, Course (s.buildAndRun request).run work result ∧
    rest = work ++ ⟨.clock, t⟩ :: ⟨.record "generate" ⟨t - start⟩, ()⟩ :: closing ∧
    s.Closes request ⟨t - start⟩ result closing outcome := by
  obtain ⟨start', looked', found, rest', hown, hlooked, hcase⟩ := course_generateRequest h
  obtain ⟨hclock, htail⟩ := List.cons.inj hown
  cases hclock
  obtain ⟨rfl, rfl, rfl⟩ := hmiss.deterministic hlooked htail
  rcases hcase with ⟨output, t, hfound, -, -⟩ | ⟨-, hwork⟩
  · cases hfound
  · exact hwork

/-- The course of a request that gets a workspace, in two parts: up to the template, and from there
on. Jobs belong to the first part, commands and moves to the second. -/
structure Passage (s : Service) (request : Request) (deadline : Nat) (own : List Event)
    (outcome : Except Fault Generated) where
  first : List Event
  before : List Event
  created : Duration
  w : Workspace
  work : List Event
  result : Except Fault String
  dropped : List Event
  time : Nat
  elapsed : Duration
  closing : List Event
  own_eq : own = first ++
    (before ++ ⟨.record "workspace_create" created, ()⟩ :: (work ++ dropped) ++
    ⟨.clock, time⟩ :: ⟨.record "generate" elapsed, ()⟩ :: closing)
  calls_first : ∀ e ∈ first, e.call.kind ≠ .command ∧ e.call.kind ≠ .move
  plain_before : ∀ e ∈ before, e.call.IsPlain
  plain_dropped : ∀ e ∈ dropped, e.call.IsPlain
  works : Course (s.buildThenRun w request deadline).run work result
  closes : s.Closes request elapsed result closing outcome

theorem passage_of_workspace (h : Course (s.generateRequest request).run own outcome)
    (hown : own = ⟨.clock, start⟩ :: (looked ++ ⟨.clock, begun⟩ :: rest))
    (hmiss : Course (s.lookup request.source) looked none)
    (hmade : ∃ d, (⟨.record "workspace_create" d, ()⟩ : Event) ∈ own) :
    Nonempty (s.Passage request (begun + request.timeout.nanos) own outcome) := by
  subst hown
  obtain ⟨work, result, t, closing, hwork, hrest, hclose⟩ := course_after_miss h hmiss
  obtain ⟨begun', readied, later, rfl, hreadied, hcase⟩ := course_buildAndRun hwork
  rw [cons_append] at hrest
  obtain ⟨hbegun, rfl⟩ := List.cons.inj hrest
  cases hbegun
  have hlooked := calls_of_lookup hmiss
  rcases hcase with hplain | ⟨before, d, w, work, dropped, rfl, hbefore, hdropped, hstages⟩
  · -- a request without a workspace records none
    obtain ⟨d, hd⟩ := hmade
    simp only [mem_append, mem_cons, Event.mk.injEq, reduceCtorEq, false_and, false_or,
      record.injEq, String.reduceEq] at hd
    rcases hd with hd | (hd | hd) | hd
    · obtain hplain | ⟨d', hcall⟩ := hlooked _ hd
      · cases hplain
      · simp at hcall
    · rcases hreadied _ hd with hkind | hkind <;> cases hkind
    · cases hplain _ hd
    · rcases hclose.kind _ hd with hkind | hkind <;> cases hkind
  · refine ⟨⟨⟨.clock, start⟩ :: (looked ++ ⟨.clock, begun⟩ :: readied), before, d, w, work, result,
      dropped, t, ⟨t - start⟩, closing, by simp, ?_, hbefore, hdropped, hstages, hclose⟩⟩
    simp only [forall_mem_cons, forall_mem_append]
    refine ⟨by simp [kind], fun e he => ?_, by simp [kind], fun e he => ?_⟩
    · obtain hplain | ⟨d', hcall⟩ := hlooked e he
      · simp [hplain]
      · simp [hcall, kind]
    · rcases hreadied e he with hkind | hkind <;> simp [hkind]

namespace Passage

variable {deadline : Nat}

/-- Behind the template and before its end a request moves nothing and starts no job. -/
theorem staged (p : s.Passage request deadline own outcome) : ∀ e ∈ p.before ++
    ⟨.record "workspace_create" p.created, ()⟩ :: (p.work ++ p.dropped) ++
    [⟨.clock, p.time⟩, ⟨.record "generate" p.elapsed, ()⟩], e.call.IsStaged := by
  have hplain {es : List Event} (h : ∀ e ∈ es, e.call.IsPlain) : ∀ e ∈ es, e.call.IsStaged :=
    fun e he => by simp [IsStaged, h e he]
  have hwork : ∀ e ∈ p.work, e.call.IsStaged := p.works.only (only_buildThenRun
    (by simp [IsStaged, kind]) (by simp [IsStaged, kind]) (by simp [IsStaged, kind]))
  simp only [forall_mem_append, forall_mem_cons]
  exact ⟨⟨hplain p.plain_before, by simp [IsStaged, kind], hwork, hplain p.plain_dropped⟩,
    by simp [IsStaged, kind]⟩

theorem own_eq_closing (p : s.Passage request deadline own outcome) : own = p.first ++ (p.before ++
    ⟨.record "workspace_create" p.created, ()⟩ :: (p.work ++ p.dropped) ++
    [⟨.clock, p.time⟩, ⟨.record "generate" p.elapsed, ()⟩] ++ p.closing) :=
  p.own_eq.trans (by simp)

/-- Only the stages run commands. -/
theorem runsOf_own (p : s.Passage request deadline own outcome) : runsOf own = runsOf p.work := by
  have hfirst : runsOf p.first = [] := runsOf_eq_nil fun e he => (p.calls_first e he).1
  have hclosing : runsOf p.closing = [] := by
    apply runsOf_eq_nil
    intro e he
    rcases p.closes.kind e he with hkind | hkind <;> simp [hkind]
  calc runsOf own
      = runsOf p.first ++ (runsOf p.before ++ (runsOf p.work ++ runsOf p.dropped) ++
          runsOf p.closing) := by
        refine (congrArg runsOf p.own_eq).trans ?_
        simp [runsOf, kind]
    _ = runsOf p.work := by
        simp [hfirst, hclosing, runsOf_of_plain p.plain_before, runsOf_of_plain p.plain_dropped]

/-- Jobs are started and waited for before any command is run. -/
theorem runsOf_before_job (p : s.Passage request deadline own outcome) {before after : List Event}
    {e : Event} (heq : own = before ++ e :: after) (he : e.call.kind = .job) :
    runsOf before = [] := by
  rcases append_eq_append_iff.mp (p.own_eq_closing.symm.trans heq) with
    ⟨more, -, hmore⟩ | ⟨more, hfirst, -⟩
  · rcases mem_append.mp (hmore ▸ mem_append_right more mem_cons_self : e ∈ _ ++ p.closing) with
      hmem | hmem
    · exact absurd he (p.staged e hmem).2
    · rcases p.closes.kind e hmem with hkind | hkind <;> simp [hkind] at he
  · have hruns : runsOf (before ++ more) = [] :=
      hfirst ▸ runsOf_eq_nil fun e he => (p.calls_first e he).1
    rw [runsOf_append] at hruns
    exact (append_eq_nil_iff.mp hruns).1

/-- A failed request has moved nothing. -/
theorem kind_ne_move {fault : Fault} (p : s.Passage request deadline own (.error fault)) :
    ∀ e ∈ own, e.call.kind ≠ .move := by
  intro e he
  rcases mem_append.mp (p.own_eq_closing ▸ he) with he | he
  · exact (p.calls_first e he).2
  rcases mem_append.mp he with he | he
  · exact (p.staged e he).1
  · simp [p.closes.plain_of_error e he]

/-- An output is stored, if the cache is in use. -/
theorem stored {output : String} (p : s.Passage request deadline own (.ok ⟨output, false⟩))
    (hc : s.cacheEnabled = true) : ∃ before stored after advised, own = before ++ stored ++ after ∧
    Course (s.cache.put request.source output) stored advised := by
  obtain ⟨stored, advised, hput, after, hclosing⟩ := p.closes.stored hc
  have hown := p.own_eq_closing
  rw [hclosing, ← append_assoc, ← append_assoc] at hown
  exact ⟨_, stored, after, advised, hown, hput⟩

/-- With time left before each stage, the replies to the two commands decide. -/
theorem concludes (p : s.Passage request deadline own outcome)
    (hleft : ∀ before operation d t after, operation = "workspace_create" ∨ operation = "build" →
    own = before ++ ⟨.record operation d, ()⟩ :: ⟨.clock, t⟩ :: after → t < deadline) :
    s.Concludes request p.w (runsOf own) p.result := by
  rw [p.runsOf_own]
  apply concludes_of_course p.works
  · intro t more hwork
    refine hleft (p.first ++ p.before) "workspace_create" p.created t (more ++ p.dropped ++
      ⟨.clock, p.time⟩ :: ⟨.record "generate" p.elapsed, ()⟩ :: p.closing) (.inl rfl)
        (p.own_eq.trans ?_)
    simp [hwork]
  · intro before d t after hwork
    refine hleft (p.first ++ (p.before ++ ⟨.record "workspace_create" p.created, ()⟩ :: before))
      "build"
      d t (after ++ p.dropped ++ ⟨.clock, p.time⟩ :: ⟨.record "generate" p.elapsed, ()⟩ ::
        p.closing)
      (.inr rfl) (p.own_eq.trans ?_)
    simp [hwork]

end Passage

/-- For a request that the cache does not answer and that gets a workspace, with time left before
each stage: the template is built at most once and before anything else is run; the replies to the
two commands decide the outcome; an output is stored, and after a failure nothing is moved into
the cache. -/
theorem outcome_of_stages (h : Course (s.generateRequest request).run own outcome)
    (hown : own = ⟨.clock, start⟩ :: (looked ++ ⟨.clock, begun⟩ :: rest))
    (hmiss : Course (s.lookup request.source) looked none)
    (hmade : ∃ d, (⟨.record "workspace_create" d, ()⟩ : Event) ∈ own)
    (hleft : ∀ before operation d t after, operation = "workspace_create" ∨ operation = "build" →
      own = before ++ ⟨.record operation d, ()⟩ :: ⟨.clock, t⟩ :: after →
      t < begun + request.timeout.nanos)
    (hjob : s.JobOf own job) :
    RunsAtMost s.template.command job ∧
      (∀ before e after, own = before ++ e :: after → e.call.kind = .job → runsOf before = []) ∧
      (∃ w result, s.Concludes request w (runsOf own) result ∧
        outcome = result.map fun output => ⟨output, false⟩) ∧
      (s.cacheEnabled = true → ∀ output, outcome = .ok ⟨output, false⟩ →
        ∃ before stored after advised, own = before ++ stored ++ after ∧
          Course (s.cache.put request.source output) stored advised) ∧
      ∀ fault, outcome = .error fault → ∀ e ∈ own, e.call.kind ≠ .move := by
  obtain ⟨p⟩ := passage_of_workspace h hown hmiss hmade
  refine ⟨hjob.runsAtMost, fun before e after => p.runsOf_before_job,
    ⟨p.w, p.result, p.concludes hleft, p.closes.outcome_eq⟩, ?_, ?_⟩
  · rintro hc output rfl
    exact p.stored hc
  rintro fault rfl
  exact p.kind_ne_move

/-- Surroundings where every file operation and every command succeeds, but nothing is there yet. -/
def freshReply : (c : Call) → c.Reply
  | .readFile _ => .error .notFound
  | .writeFile .. | .appendFile .. | .makeDir _ | .makeDirs _ | .removeFile _ | .removeTree _
  | .rename .. | .restrict _ | .markLock .. | .listen _ => .ok ()
  | .listDir _ => .ok []
  | .fileSize _ => .ok 0
  | .isFile _ | .pathExists _ | .isAlive _ => false
  | .sweep _ => []
  | .clock | .ownPid | .startJob => 5
  | .today => default
  | .freshId => "00000000000000000000000000000000"
  | .openLock _ => .ok 1
  | .lock .. => .acquired
  | .run .. => .ok ⟨0, "done".toUTF8, .empty⟩
  | .awaitJob .. => .finished (.ok true)
  | .closeLock _ | .record .. | .warn .. | .owe _ | .settle | .awaitInterrupt => ()

/-- A service with its cache and its template in use. -/
def plainService : Service where
  limits := default
  cache := { dir := "cache", maxEntries := 3, maxAge := 0, hash := id }
  cacheEnabled := true
  template := default
  templateEnabled := true
  workspaces := default
  audit := ⟨true, "audit.log"⟩
  sentinel := "begin"

/-- Whether an event records how long an operation took. -/
def records (operation : String) (e : Event) : Bool :=
  match e.call with
  | .record name _ => name == operation
  | _ => false

def awaits (e : Event) : Bool :=
  match e.call with
  | .awaitJob .. => true
  | _ => false

theorem outcome_of_stages_fresh : ∃ own job,
    Course (plainService.generateRequest ⟨"x", ⟨9⟩⟩).run own (.ok ⟨"done", false⟩) ∧
    Course plainService.ensureTemplate.run job (.ok true) ∧
    RunsAtMost plainService.template.command job ∧
    (∃ w, plainService.Concludes ⟨"x", ⟨9⟩⟩ w (runsOf own) (.ok "done")) ∧
    ∃ before stored after advised, own = before ++ stored ++ after ∧
      Course (plainService.cache.put "x" "done") stored advised := by
  have hok : ((plainService.generateRequest ⟨"x", ⟨9⟩⟩).run.follow (fun _ => freshReply) []).2 =
      .ok ⟨"done", false⟩ :=
    Except.eq_ok_of_toOption (by decide +kernel)
  have hbuilt : (plainService.ensureTemplate.run.follow (fun _ => freshReply) []).2 = .ok true :=
    Except.eq_ok_of_toOption (by decide +kernel)
  have hcourse :=
    course_follow (fun _ => freshReply) [] (plainService.generateRequest ⟨"x", ⟨9⟩⟩).run
  have hjob := course_follow (fun _ => freshReply) [] plainService.ensureTemplate.run
  have hrecords :
      ((plainService.generateRequest ⟨"x", ⟨9⟩⟩).run.follow (fun _ => freshReply) []).1.any
      (records "workspace_create") = true := by decide +kernel
  have hawaits :
      ((plainService.generateRequest ⟨"x", ⟨9⟩⟩).run.follow (fun _ => freshReply) []).1.any awaits =
        true := by
    decide +kernel
  have hreply {e : Event}
      (he : e ∈ ((plainService.generateRequest ⟨"x", ⟨9⟩⟩).run.follow (fun _ => freshReply) []).1) :
      e.reply = freshReply e.call := by
    obtain ⟨past, hpast⟩ := (answers_follow _ _ _).mem he
    exact hpast
  generalize ((plainService.generateRequest ⟨"x", ⟨9⟩⟩).run.follow (fun _ => freshReply) []).1 =
    own at *
  rw [hok] at hcourse
  rw [hbuilt] at hjob
  obtain ⟨start, looked, found, rest, hown, hlooked, ⟨_, _, -, hcached, -⟩ |
    ⟨rfl, work, result, t, closing, hwork, rfl, -⟩⟩ := course_generateRequest hcourse
  · simp at hcached
  obtain ⟨begun, readied, later, rfl, -⟩ := course_buildAndRun hwork
  have hmade : ∃ d, (⟨.record "workspace_create" d, ()⟩ : Event) ∈ own := by
    obtain ⟨⟨c, r⟩, he, hrec⟩ := List.any_eq_true.mp hrecords
    cases c with
    | record operation d =>
      obtain rfl : operation = "workspace_create" := by simpa [records] using hrec
      exact ⟨d, he⟩
    | _ => cases hrec
  have hjobOf : plainService.JobOf own (plainService.ensureTemplate.run.follow (fun _ => freshReply)
      []).1 := by
    obtain ⟨⟨c, r⟩, he, hwaits⟩ := List.any_eq_true.mp hawaits
    cases c with
    | awaitJob n deadline =>
      obtain rfl : r = .finished (.ok true) := hreply he
      exact Or.inl ⟨n, deadline, .ok true, he, hjob⟩
    | _ => cases hwaits
  -- the clock stands still
  have hclock : ∀ t, (⟨.clock, t⟩ : Event) ∈ own → t = 5 := fun t ht => hreply ht
  have hbegun : begun = 5 := hclock begun (by rw [hown]; simp)
  obtain ⟨hjobs, -, ⟨w, result, hw, hresult⟩, hstored, -⟩ :=
    outcome_of_stages hcourse hown hlooked hmade
      (fun before operation d t after _ heq => by
        rw [hclock t (by rw [heq]; simp), hbegun]
        decide) hjobOf
  have hresult : result = .ok "done" := by
    cases result with
    | error fault => cases hresult
    | ok output => simpa [Except.map] using hresult.symm
  exact ⟨own, _, hcourse, hjob, hjobs, ⟨w, hresult ▸ hw⟩, hstored rfl "done" rfl⟩

end Service

end Foundry
