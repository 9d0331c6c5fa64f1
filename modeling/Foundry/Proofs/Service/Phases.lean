import Foundry.Proofs.Cache.Footprint
import Foundry.Service

/-!
# The phases of a request

What a request asks for, in order: the cache, the template, a workspace, the two
commands, and at the end the cache again and the audit trail. Each function of the
service is described by the courses it can take, so nothing below unfolds one.
-/

namespace Foundry

variable {α : Type}

open List Action Workspaces

variable {allowed : Call → Prop} {es : List Event} {call : Call}

open Program

/-! ## Kinds of calls -/

/-- What a call is about, as far as the order of a request is concerned. -/
inductive Call.Kind where
  | command
  /-- How long something took is recorded. -/
  | measure
  /-- A file is moved. -/
  | move
  /-- A background job is started or waited for. -/
  | job
  | plain
deriving DecidableEq

def Call.kind : Call → Kind
  | .run .. => .command
  | .record .. => .measure
  | .rename .. => .move
  | .startJob | .awaitJob .. => .job
  | _ => .plain

abbrev Call.IsPlain (c : Call) : Prop := c.kind = .plain

/-- The commands that were run, with what came of them. -/
def runsOf (es : List Event) : List Event := es.filter fun e => e.call.kind = .command

@[simp] theorem runsOf_append (es es' : List Event) :
    runsOf (es ++ es') = runsOf es ++ runsOf es' :=
  filter_append ..

theorem runsOf_eq_nil (h : ∀ e ∈ es, e.call.kind ≠ .command) : runsOf es = [] := by
  apply filter_eq_nil_iff.mpr
  intro e he
  simpa using h e he

theorem runsOf_of_plain (h : ∀ e ∈ es, e.call.IsPlain) : runsOf es = [] :=
  runsOf_eq_nil fun e he => by simp [h e he]

/-! ## Small programs -/

/-- What a value with a warning leaves in the log. -/
def Advised.report {α : Type} (a : Advised α) (operation : String) : List Event :=
  match a.warning with
  | some warning => [⟨.warn warning [("operation", Text.debugQuote operation)], ()⟩]
  | none => []

theorem course_settle {a : Advised α} {operation : String} {v : α} :
    Course (a.settle operation) es v ↔ es = a.report operation ∧ v = a.value := by
  rcases a with ⟨value, warning⟩
  cases warning with
  | none => exact course_done
  | some warning =>
    constructor
    · intro h
      obtain ⟨_, rest, rfl, hrest⟩ := course_call.mp h
      obtain ⟨rfl, rfl⟩ := course_done.mp hrest
      exact ⟨rfl, rfl⟩
    · rintro ⟨rfl, rfl⟩
      exact .call _ (.done _)

/-! ## Footprints -/

theorem Cache.Handles.kind (h : Cache.Handles call) : call.IsPlain ∨ call.kind = .move := by
  cases call with
  | rename source target => exact .inr rfl
  | readFile | writeFile | removeFile | makeDirs | listDir | today | freshId => exact .inl rfl
  | _ => exact h.elim

theorem Cache.Consults.isPlain {path : String} (h : Cache.Consults path call) : call.IsPlain := by
  cases call with
  | readFile | removeFile | today => rfl
  | _ => exact h.elim

theorem only_settle (a : Advised α) (operation : String)
    (hwarn : ∀ message fields, allowed (.warn message fields)) :
    (a.settle operation).Only allowed := by
  rcases a with ⟨value, warning⟩
  cases warning with
  | none => exact only_done _
  | some warning => exact (only_ask (hwarn _ _)).bind fun _ => only_done _

theorem Advised.only_report (a : Advised α) (operation : String)
    (hwarn : ∀ message fields, allowed (.warn message fields)) :
    ∀ e ∈ a.report operation, allowed e.call :=
  (course_settle.mpr ⟨rfl, rfl⟩).only (only_settle a operation hwarn)

theorem only_sweepAll (hsweep : ∀ pattern, allowed (.sweep pattern))
    (hwarn : ∀ message fields, allowed (.warn message fields)) (patterns : List String) :
    (sweepAll patterns).Only allowed := by
  have hall (warnings : List String) : (warnAll warnings).Only allowed := by
    induction warnings with
    | nil => exact only_done _
    | cons w rest ih => exact (only_ask (hwarn w [])).bind fun _ => ih
  induction patterns with
  | nil => exact only_done _
  | cons p rest ih =>
    apply (only_ask (hsweep p)).bind
    intro warnings
    exact (hall warnings).bind fun _ => ih

theorem only_drop (w : Workspace) (hsettle : allowed .settle)
    (hremove : allowed (.removeTree w.root)) (hsweep : ∀ pattern, allowed (.sweep pattern))
    (hwarn : ∀ message fields, allowed (.warn message fields)) : w.drop.Only allowed := by
  have hswept : (sweepAll w.artifacts).Only allowed := only_sweepAll hsweep hwarn w.artifacts
  apply (only_ask hsettle).bind
  intro _
  apply (only_ask hremove).bind
  intro r
  cases r with
  | ok _ => exact hswept
  | error e =>
    dsimp only
    split
    · exact (only_ask (hwarn _ [])).bind fun _ => hswept
    · exact hswept

/-- The calls that make and remove workspaces. -/
def Workspaces.Makes : Call → Prop
  | .makeDir _ | .makeDirs _ | .writeFile .. | .restrict _ | .removeTree _ | .sweep _ => True
  | .freshId | .owe _ | .settle | .warn .. => True
  | _ => False

namespace Workspaces

theorem Makes.isPlain (h : Makes call) : call.IsPlain := by
  cases call with
  | run | record | rename | startJob | awaitJob => exact h.elim
  | _ => rfl

theorem makes_settle {α : Type} (a : Advised α) (operation : String) :
    (a.settle operation).Only Makes :=
  only_settle a operation fun _ _ => trivial

theorem makes_drop (w : Workspace) : w.drop.Only Makes :=
  only_drop w trivial trivial (fun _ => trivial) fun _ _ => trivial

end Workspaces

theorem only_makeParent (h : ∀ dir, allowed (.makeDirs dir)) (path : String) :
    (makeParent path).run.Only allowed := by
  unfold makeParent
  split
  · exact only_orFail (only_ask (h _))
  · exact only_done _

namespace Workspaces

/-- The calls of `Makes`, but files are written only into workspaces. -/
def Furnishes (b : Workspaces) : Call → Prop
  | .writeFile path _ => ∃ id, path = (b.describe id).manifestFile ∨
      path = (b.describe id).sourceFile
  | c => Makes c

theorem Furnishes.makes {b : Workspaces} (c : Call) (h : b.Furnishes c) : Makes c := by
  cases c with
  | writeFile => trivial
  | _ => exact h

theorem only_writeWithDirs (hdirs : ∀ dir, allowed (.makeDirs dir)) {path text : String}
    (hwrite : allowed (.writeFile path text.toUTF8)) :
    (writeWithDirs path text).run.Only allowed := by
  apply only_bind (only_makeParent hdirs path)
  intro _
  exact only_orFail (only_ask hwrite)

theorem furnishes_create (b : Workspaces) (source : String) (dependency : DependencyRef) :
    (b.create source dependency).run.Only b.Furnishes := by
  apply only_bind (only_orFail (only_ask (c := .makeDirs _) trivial))
  intro _
  apply only_lift_bind (only_ask (c := .freshId) trivial)
  intro id
  apply only_bind (only_orFail (only_ask (c := .makeDir _) trivial))
  intro _
  apply only_lift_bind (only_ask (c := .owe _) trivial)
  intro _
  apply only_lift_bind (only_ask (c := .restrict _) trivial)
  intro restricted
  have hfiles : (b.writeFiles (b.describe id) source dependency).run.Only b.Furnishes :=
    only_bind (only_writeWithDirs (fun _ => trivial) ⟨id, .inl rfl⟩) fun _ =>
      only_writeWithDirs (fun _ => trivial) ⟨id, .inr rfl⟩
  apply only_lift_bind hfiles
  intro written
  cases written with
  | ok _ => exact only_done _
  | error fault =>
    exact only_lift_bind (only_drop _ trivial trivial (fun _ => trivial) fun _ _ => trivial)
      fun _ => only_done _

theorem makes_create (b : Workspaces) (source : String) (dependency : DependencyRef) :
    (b.create source dependency).run.Only Makes :=
  (b.furnishes_create source dependency).mono Furnishes.makes

end Workspaces

/-- The calls that add to the audit trail. -/
def AuditLog.Tells : Call → Prop
  | .today | .makeDirs _ | .appendFile .. | .warn .. => True
  | _ => False

theorem AuditLog.Tells.isPlain (h : AuditLog.Tells call) : call.IsPlain := by
  cases call with
  | today | makeDirs | appendFile | warn => rfl
  | _ => exact h.elim

theorem AuditLog.tells_record (log : AuditLog) (event : AuditEvent) :
    (log.record event).Only Tells := by
  have happend (bytes : ByteArray) : (log.append bytes).Only Tells := by
    unfold AuditLog.append
    split
    · apply (only_ask (c := .makeDirs _) trivial).bind
      intro r
      cases r with
      | error e => exact only_done _
      | ok _ => exact only_ask (c := .appendFile _ _) trivial
    · exact only_ask (c := .appendFile _ _) trivial
  unfold AuditLog.record
  split
  · apply (only_ask (c := .today) trivial).bind
    intro now
    cases event.line? now with
    | none => exact only_ask (c := .warn _ _) trivial
    | some line =>
      apply (happend _).bind
      intro r
      cases r with
      | ok _ => exact only_done _
      | error e => exact only_ask (c := .warn _ _) trivial
  · exact only_done _

namespace Service

variable {r : Except Fault String} {α : Type} {operation : String} {command : Command}
  {w : Workspace} {dependency : DependencyRef}
variable {s : Service} {request : Request} {es : List Event} {allowed : Call → Prop}
  {result : Except Fault String} {outcome : Except Fault Generated} {elapsed : Duration}
    {deadline : Nat}
  {start : Nat} {p : Program α}

theorem only_dependencyRef (hfile : ∀ path, allowed (.isFile path)) (hstart : allowed .startJob)
    (hawait : ∀ job deadline, allowed (.awaitJob job deadline))
    (hwarn : ∀ message fields, allowed (.warn message fields)) :
    (s.dependencyRef request deadline).run.Only allowed := by
  unfold dependencyRef
  split
  · exact only_done _
  apply only_lift_bind (only_ask (hfile _))
  intro ready
  cases ready with
  | true => exact only_done _
  | false =>
    apply only_lift_bind (only_ask hstart)
    intro job
    apply only_lift_bind (only_ask (hawait _ _))
    intro r
    cases r with
    | finished result =>
      cases result with
      | ok _ => exact only_done _
      | error fault => exact only_lift_bind (only_ask (hwarn _ _)) fun _ => only_done _
    | expired => exact only_lift_bind (only_ask (hwarn _ _)) fun _ => only_done _
    | cancelled => exact only_done _

/-- How a request comes to wait for a template, and what it hears. -/
def awaitEvents (s : Service) (job deadline : Nat) (reply : JobReply) : List Event :=
  [⟨.isFile s.template.marker, false⟩, ⟨.startJob, job⟩, ⟨.awaitJob job deadline, reply⟩]

/-- What a request makes of the end of its wait for a template. -/
inductive Takes (request : Request) : JobReply → List Event → Except Fault DependencyRef → Prop
  | built (built : Bool) : Takes request (.finished (.ok built)) [] (.ok .prebuilt)
  | failed (fault : Fault) : Takes request (.finished (.error fault))
      [⟨.warn ("Dependency template unavailable, using remote dependency: " ++ fault.message) [],
      ()⟩] (.ok .remote)
  | expired :
      Takes request .expired [⟨.warn "Template not ready within the request deadline" [], ()⟩]
      (.error (.timeout "template" request.timeout.toSeconds))
  | cancelled : Takes request .cancelled [] (.error .cancelled)

/-- How a request comes by the reference for its workspace. -/
inductive Refers (s : Service) (request : Request) (deadline : Nat) :
    List Event → Except Fault DependencyRef → Prop
  | unused : Refers s request deadline [] (.ok .remote)
  | ready : Refers s request deadline [⟨.isFile s.template.marker, true⟩] (.ok .prebuilt)
  | awaited {job : Nat} {reply : JobReply} {told : List Event} {r : Except Fault DependencyRef}
      (takes : Takes request reply told r) :
      Refers s request deadline (s.awaitEvents job deadline reply ++ told) r

theorem refers_of_course {r : Except Fault DependencyRef}
    (h : Course (s.dependencyRef request deadline).run es r) : s.Refers request deadline es r := by
  unfold dependencyRef at h
  split at h
  · obtain ⟨rfl, rfl⟩ := Action.course_pure.mp h
    exact .unused
  obtain ⟨ready, rest, rfl, hrest⟩ := Action.course_ask_bind.mp h
  cases ready with
  | true =>
    obtain ⟨rfl, rfl⟩ := Action.course_pure.mp hrest
    exact .ready
  | false =>
    obtain ⟨started, rest₁, rfl, hrest₁⟩ := Action.course_ask_bind.mp hrest
    obtain ⟨heard, rest₂, rfl, hrest₂⟩ := Action.course_ask_bind.mp hrest₁
    refine @Refers.awaited _ _ _ started heard rest₂ _ ?_
    cases heard with
    | finished result =>
      cases result with
      | ok built =>
        obtain ⟨rfl, rfl⟩ := Action.course_pure.mp hrest₂
        exact .built built
      | error fault =>
        obtain ⟨_, rest₃, rfl, hrest₃⟩ := Action.course_ask_bind.mp hrest₂
        obtain ⟨rfl, rfl⟩ := Action.course_pure.mp hrest₃
        exact .failed fault
    | expired =>
      obtain ⟨_, rest₃, rfl, hrest₃⟩ := Action.course_ask_bind.mp hrest₂
      obtain ⟨rfl, rfl⟩ := course_throw.mp hrest₃
      exact .expired
    | cancelled =>
      obtain ⟨rfl, rfl⟩ := course_throw.mp hrest₂
      exact .cancelled

theorem course_elapsedSince {d : Duration} :
    Course (elapsedSince start) es d ↔ ∃ t, es = [⟨.clock, t⟩] ∧ d = ⟨t - start⟩ := by
  constructor
  · intro h
    obtain ⟨t, rest, rfl, hrest⟩ := course_call.mp h
    obtain ⟨rfl, rfl⟩ := course_done.mp hrest
    exact ⟨t, rfl, rfl⟩
  · rintro ⟨t, rfl, rfl⟩
    exact .call t (.done _)

theorem only_elapsedSince (hclock : allowed .clock) (start : Nat) :
    (elapsedSince start).Only allowed :=
  (only_ask hclock).bind fun _ => only_done _

/-- The clock is read before and after, and the difference is recorded. -/
theorem course_timed {a : α} (h : Course (timed operation p) es a) : ∃ t t' mid, Course p mid a ∧
    es = ⟨.clock, t⟩ :: (mid ++ [⟨.clock, t'⟩, ⟨.record operation ⟨t' - t⟩, ()⟩]) := by
  obtain ⟨t, rest, rfl, hrest⟩ := course_ask_bind.mp h
  obtain ⟨mid, last, a', rfl, hp, hlast⟩ := course_bind.mp hrest
  obtain ⟨read, last, d, rfl, hread, hlast⟩ := course_bind.mp hlast
  obtain ⟨t', rfl, rfl⟩ := course_elapsedSince.mp hread
  obtain ⟨u, rest, rfl, hend⟩ := course_ask_bind.mp hlast
  obtain ⟨rfl, rfl⟩ := course_done.mp hend
  exact ⟨t, t', mid, hp, rfl⟩

theorem only_timed (h : p.Only allowed) (hclock : allowed .clock)
    (hrecord : ∀ d, allowed (.record operation d)) : (timed operation p).Only allowed := by
  apply (only_ask hclock).bind
  intro start
  apply h.bind
  intro a
  apply (only_elapsedSince hclock start).bind
  intro elapsed
  exact (only_ask (hrecord elapsed)).bind fun _ => only_done _

/-- A look into the cache, if there is one: the time it takes is recorded. -/
theorem course_lookup {source : String} {found : Option String}
    (h : Course (s.lookup source) es found) : s.cacheEnabled = false ∧ es = [] ∧ found = none ∨
    s.cacheEnabled = true ∧ ∃ t t' consulted advised, Course (s.cache.get source) consulted
    advised ∧
    found = advised.value ∧ es = ⟨.clock, t⟩ :: (consulted ++ advised.report "cache lookup" ++
    [⟨.clock, t'⟩, ⟨.record "cache_lookup" ⟨t' - t⟩, ()⟩]) := by
  unfold lookup at h
  cases hc : s.cacheEnabled with
  | false =>
    simp only [hc, Bool.false_eq_true, if_false] at h
    obtain ⟨rfl, rfl⟩ := course_done.mp h
    exact .inl ⟨rfl, rfl, rfl⟩
  | true =>
    simp only [hc, if_true] at h
    obtain ⟨t, t', mid, hmid, rfl⟩ := course_timed h
    obtain ⟨consulted, settled, advised, rfl, hget, hsettle⟩ := course_bind.mp hmid
    obtain ⟨rfl, rfl⟩ := course_settle.mp hsettle
    exact .inr ⟨rfl, t, t', consulted, advised, hget, rfl, rfl⟩

/-! ## Stages -/

/-- What a stage reports: a timeout names the time of the whole request. -/
def stageOutcome (request : Request) (reply : Except Fault CommandResult) :
    Except Fault CommandResult :=
  match reply with
  | .error (.timeout stage _) => .error (.timeout stage request.timeout.toSeconds)
  | reply => reply

theorem eq_of_stageOutcome {reply : Except Fault CommandResult} {result : CommandResult}
    (h : .ok result = stageOutcome request reply) : reply = .ok result := by
  unfold stageOutcome at h
  split at h
  · cases h
  · exact h.symm

/-- A stage that is started: the time left to it is what the command gets. -/
def stageEvents (command : Command) (deadline t t₁ t₂ : Nat) (reply : Except Fault CommandResult) :
    List Event :=
  [⟨.clock, t⟩, ⟨.clock, t₁⟩, ⟨.run command ⟨deadline - t⟩, reply⟩, ⟨.clock, t₂⟩,
    ⟨.record command.stage ⟨t₂ - t₁⟩, ()⟩]

/-- With time left, a stage runs its command. -/
theorem course_runStage {r : Except Fault CommandResult}
    (h : Course (runStage command request deadline).run es r)
    (hleft : ∀ t rest, es = ⟨.clock, t⟩ :: rest → t < deadline) :
    ∃ t t₁ t₂ reply, es = stageEvents command deadline t t₁ t₂ reply ∧
    r = stageOutcome request reply := by
  obtain ⟨t, rest, rfl, hrest⟩ := Action.course_ask_bind.mp h
  have hne : deadline - t ≠ 0 := Nat.sub_ne_zero_of_lt (hleft t rest rfl)
  simp only [hne, if_false] at hrest
  obtain ⟨before, after, reply, rfl, htimed, hafter⟩ := course_attempt_bind.mp hrest
  obtain ⟨t₁, t₂, mid, hrun, rfl⟩ := course_timed htimed
  obtain rfl := course_ask.mp hrun
  have hend : after = [] ∧ r = stageOutcome request reply := by
    cases reply with
    | ok result => exact course_done.mp hafter
    | error fault => cases fault <;> exact course_done.mp hafter
  obtain ⟨rfl, rfl⟩ := hend
  exact ⟨t, t₁, t₂, reply, rfl, rfl⟩

/-- How a build fails, given what comes of its command. -/
def buildFailure? (request : Request) (reply : Except Fault CommandResult) : Option Fault :=
  match stageOutcome request reply with
  | .error fault => some fault
  | .ok result => if result.code = 0 then none else some (.build result.combined)

/-- How a run fails, given what comes of its command. -/
def runFailure? (request : Request) (reply : Except Fault CommandResult) : Option Fault :=
  match stageOutcome request reply with
  | .error fault => some fault
  | .ok result =>
    if result.code ≠ 0 then
      some (.runtime result.code (Text.trim (result.stderrText?.getD "")))
    else if result.stdoutText? = none then some .noOutput
    else none

/-- The commands of a workspace with what the request comes to: the first failure, or else what
the run has printed. -/
inductive Concludes (s : Service) (request : Request) (w : Workspace) :
    List Event → Except Fault String → Prop
  | unbuilt {t : Duration} {b : Except Fault CommandResult} {fault : Fault}
      (failed : buildFailure? request b = some fault) :
      Concludes s request w [⟨.run (s.workspaces.buildCommand w) t, b⟩] (.error fault)
  | unrun {t t' : Duration} {b r : Except Fault CommandResult} {fault : Fault}
      (built : buildFailure? request b = none) (failed : runFailure? request r = some fault) :
      Concludes s request w [⟨.run (s.workspaces.buildCommand w) t, b⟩,
        ⟨.run (s.workspaces.runCommand w) t', r⟩] (.error fault)
  | printed {t t' : Duration} {b : Except Fault CommandResult} {result : CommandResult}
      {stdout : String} (built : buildFailure? request b = none) (ran : result.code = 0)
      (text : result.stdoutText? = some stdout) :
      Concludes s request w [⟨.run (s.workspaces.buildCommand w) t, b⟩,
        ⟨.run (s.workspaces.runCommand w) t', .ok result⟩]
        (.ok (Sentinel.payload stdout s.sentinel))

theorem only_runStage (hclock : allowed .clock)
    (hrun : ∀ command timeout, allowed (.run command timeout))
    (hrecord : ∀ operation d, allowed (.record operation d)) :
    (runStage command request deadline).run.Only allowed := by
  apply only_lift_bind (only_ask hclock)
  intro t
  by_cases hleft : deadline - t = 0
  · simp only [hleft, if_true]
    exact only_done _
  simp only [hleft, if_false]
  apply only_lift_bind (only_timed (only_ask (hrun _ _)) hclock (hrecord _))
  intro reply
  cases reply with
  | ok result => exact only_done _
  | error fault => cases fault <;> exact only_done _

theorem only_buildThenRun (hclock : allowed .clock)
    (hrun : ∀ command timeout, allowed (.run command timeout))
    (hrecord : ∀ operation d, allowed (.record operation d)) :
    (s.buildThenRun w request deadline).run.Only allowed := by
  rw [buildThenRun]
  apply only_bind (only_runStage hclock hrun hrecord)
  intro build
  split
  · exact only_bind (only_runStage hclock hrun hrecord) fun _ => only_done _
  · exact only_done _

/-- With time left before each stage, the two commands decide. -/
theorem concludes_of_course (h : Course (s.buildThenRun w request deadline).run es r)
    (hfirst : ∀ t rest, es = ⟨.clock, t⟩ :: rest → t < deadline)
    (hsecond : ∀ before d t after, es = before ++ ⟨.record "build" d, ()⟩ :: ⟨.clock, t⟩ :: after →
    t < deadline) : Concludes s request w (runsOf es) r := by
  rw [buildThenRun] at h
  rcases Action.course_bind.mp h with ⟨built, rest, build, rfl, hbuild, hrest⟩ | ⟨e, rfl, hbuild⟩
  · obtain ⟨t, t₁, t₂, b, rfl, hb⟩ := course_runStage hbuild fun t more heq =>
      hfirst t (more ++ rest) (by rw [heq, cons_append])
    by_cases hcode : build.code = 0
    · have hbuilt : buildFailure? request b = none := by simp [buildFailure?, ← hb, hcode]
      simp only [hcode, if_true] at hrest
      have hleft : ∀ t more, rest = ⟨.clock, t⟩ :: more → t < deadline := by
        rintro t' more rfl
        exact hsecond [⟨.clock, t⟩, ⟨.clock, t₁⟩, ⟨.run _ _, b⟩, ⟨.clock, t₂⟩] ⟨t₂ - t₁⟩ t' more rfl
      rcases Action.course_bind.mp hrest with ⟨ran, rest, run, rfl, hrun, hread⟩ | ⟨e, rfl, hrun⟩
      · obtain ⟨rfl, rfl⟩ := course_done.mp hread
        rw [append_nil] at hleft ⊢
        obtain ⟨t', t₁', t₂', reply, rfl, hr⟩ := course_runStage hrun hleft
        by_cases hcode' : run.code = 0
        · cases hout : run.stdoutText? with
          | none =>
            simp only [readRun, hcode', ne_eq, not_true_eq_false, if_false, hout]
            exact .unrun hbuilt (by simp [runFailure?, ← hr, hcode', hout])
          | some stdout =>
            simp only [readRun, hcode', ne_eq, not_true_eq_false, if_false, hout]
            obtain rfl := eq_of_stageOutcome hr
            exact .printed hbuilt hcode' hout
        · simp only [readRun, hcode', ne_eq, not_false_eq_true, if_true]
          exact .unrun hbuilt (by simp [runFailure?, ← hr, hcode'])
      · obtain ⟨t', t₁', t₂', reply, rfl, hr⟩ := course_runStage hrun hleft
        exact .unrun hbuilt (by simp [runFailure?, ← hr])
    · simp only [hcode, if_false] at hrest
      obtain ⟨rfl, rfl⟩ := course_throw.mp hrest
      exact .unbuilt (by simp [buildFailure?, ← hb, hcode])
  · obtain ⟨t, t₁, t₂, b, rfl, hb⟩ := course_runStage hbuild hfirst
    exact .unbuilt (by simp [buildFailure?, ← hb])

/-! ## Whole requests -/

/-- How the work on a workspace goes: none is made, or it goes through both stages and is
removed. -/
inductive Worked (s : Service) (request : Request) (deadline : Nat) (dependency : DependencyRef) :
    List Event → Except Fault String → Prop
  | uncreated {start : Nat} {made : List Event} {fault : Fault}
      (creates : Course (s.workspaces.create request.source dependency).run made (.error fault)) :
      Worked s request deadline dependency (⟨.clock, start⟩ :: made) (.error fault)
  | created {start t : Nat} {made staged dropped : List Event} {advised : Advised Workspace}
      {r : Except Fault String}
      (creates : Course (s.workspaces.create request.source dependency).run made (.ok advised))
      (stages : Course (s.buildThenRun advised.value request deadline).run staged r)
      (drops : Course advised.value.drop dropped ()) :
      Worked s request deadline dependency (⟨.clock, start⟩ :: (made ++
        (advised.report "workspace hardening" ++ ⟨.clock, t⟩ ::
          ⟨.record "workspace_create" ⟨t - start⟩, ()⟩ :: (staged ++ dropped)))) r

theorem worked_of_course
    (h : Course (s.work request deadline dependency).run es r) :
    s.Worked request deadline dependency es r := by
  obtain ⟨start, rest, rfl, hrest⟩ := Action.course_ask_bind.mp h
  rcases Action.course_bind.mp hrest with ⟨made, rest₁, advised, rfl, hcreate, hrest₁⟩ |
    ⟨e, rfl, hcreate⟩
  · obtain ⟨settled, rest₂, w, rfl, hsettle, hrest₂⟩ := Action.course_lift_bind.mp hrest₁
    obtain ⟨rfl, rfl⟩ := course_settle.mp hsettle
    obtain ⟨read, rest₃, elapsed, rfl, hread, hrest₃⟩ := Action.course_lift_bind.mp hrest₂
    obtain ⟨t, rfl, rfl⟩ := course_elapsedSince.mp hread
    obtain ⟨⟨⟩, rest₄, rfl, hrest₄⟩ := Action.course_ask_bind.mp hrest₃
    obtain ⟨staged, rest₅, result, rfl, hstages, hrest₅⟩ := course_attempt_bind.mp hrest₄
    obtain ⟨dropped, rest₆, ⟨⟩, rfl, hdrop, hrest₆⟩ := Action.course_lift_bind.mp hrest₅
    obtain ⟨rfl, rfl⟩ := course_done.mp hrest₆
    rw [append_nil]
    exact .created hcreate hstages hdrop
  · exact .uncreated hcreate

theorem only_work (hmakes : ∀ c, Makes c → allowed c)
    (hclock : allowed .clock) (hrun : ∀ command timeout, allowed (.run command timeout))
    (hrecord : ∀ operation d, allowed (.record operation d)) :
    (s.work request deadline dependency).run.Only allowed := by
  apply only_lift_bind (only_ask hclock)
  intro start
  apply only_bind ((s.workspaces.makes_create _ _).mono hmakes)
  intro advised
  apply only_lift_bind ((makes_settle _ _).mono hmakes)
  intro w
  apply only_lift_bind (only_elapsedSince hclock start)
  intro elapsed
  apply only_lift_bind (only_ask (hrecord _ _))
  intro _
  apply only_lift_bind (only_buildThenRun hclock hrun hrecord)
  intro result
  exact only_lift_bind ((makes_drop w).mono hmakes) fun _ => only_done _

/-- The part of a request from the start of its time to the removal of its workspace: once the
template has been asked for, it fails before a workspace is recorded or goes through both stages. -/
theorem course_buildAndRun (h : Course (s.buildAndRun request).run es r) :
    ∃ begun readied rest, es = ⟨.clock, begun⟩ :: (readied ++ rest) ∧
    (∀ e ∈ readied, e.call.IsPlain ∨ e.call.kind = .job) ∧
    ((∀ e ∈ rest, e.call.IsPlain) ∨ ∃ before d w work dropped,
    rest = before ++ ⟨.record "workspace_create" d, ()⟩ :: (work ++ dropped) ∧
    (∀ e ∈ before, e.call.IsPlain) ∧ (∀ e ∈ dropped, e.call.IsPlain) ∧
    Course (s.buildThenRun w request (begun + request.timeout.nanos)).run work r) := by
  have hasks {deadline : Nat} : (s.dependencyRef request deadline).run.Only fun c =>
      c.IsPlain ∨ c.kind = .job :=
    only_dependencyRef (fun _ => .inl rfl) (.inr rfl) (fun _ _ => .inr rfl) fun _ _ => .inl rfl
  rw [buildAndRun] at h
  obtain ⟨begun, rest, rfl, hrest⟩ := Action.course_ask_bind.mp h
  rcases Action.course_bind.mp hrest with ⟨readied, worked, dependency, rfl, hready, hwork⟩ |
    ⟨e, -, hready⟩
  · refine ⟨begun, readied, worked, rfl, hready.only hasks, ?_⟩
    have hmade {made : List Event} {r : Except Fault (Advised Workspace)}
        (h : Course (s.workspaces.create request.source dependency).run made r) (e : Event)
          (he : e ∈ made) :
        e.call.IsPlain :=
          (h.only (s.workspaces.makes_create request.source dependency) e he).isPlain
    cases worked_of_course hwork with
    | uncreated creates => exact .inl (forall_mem_cons.mpr ⟨rfl, hmade creates⟩)
    | @created start t made staged dropped advised r creates stages drops =>
      refine .inr
        ⟨⟨.clock, start⟩ :: (made ++ advised.report "workspace hardening" ++ [⟨.clock, t⟩]),
          ⟨t - start⟩, advised.value, staged, dropped, by simp, ?_,
        fun e he => (drops.only (makes_drop _) e he).isPlain, stages⟩
      simp only [forall_mem_cons, forall_mem_append]
      exact ⟨rfl, ⟨hmade creates, advised.only_report _ fun _ _ => rfl⟩, rfl, by simp⟩
  · exact ⟨begun, rest, [], by simp, hready.only hasks, .inl (by simp)⟩

/-- What is done about an output: it is stored, if the cache is in use. -/
def Stores (s : Service) (request : Request) (output : String) (es : List Event) : Prop :=
  if s.cacheEnabled then
    ∃ stored advised, Course (s.cache.put request.source output) stored advised ∧
      es = stored ++ advised.report "cache store"
  else es = []

/-- How a request ends after its time has been taken: an output is stored and reported, a failure
is reported only. -/
inductive Closes (s : Service) (request : Request) (elapsed : Duration) :
    Except Fault String → List Event → Except Fault Generated → Prop
  | succeeds {output : String} {stored told : List Event} (keeps : s.Stores request output stored)
      (tells : Course (s.audit.record
        (.generationCompleted (s.cache.hash request.source) elapsed.toSeconds)) told ()) :
      Closes s request elapsed (.ok output) (stored ++ told) (.ok ⟨output, false⟩)
  | fails {fault : Fault} {told : List Event}
      (tells : Course (s.audit.record
        (.generationFailed (s.cache.hash request.source) fault.message elapsed.toSeconds)) told
        ()) :
      Closes s request elapsed (.error fault) (⟨s.failureWarning request fault, ()⟩ :: told)
        (.error fault)

theorem Closes.plain_of_error {fault : Fault}
    (h : s.Closes request elapsed result es (.error fault)) : ∀ e ∈ es, e.call.IsPlain := by
  cases h with
  | fails tells =>
    exact forall_mem_cons.mpr ⟨rfl, fun e he => (tells.only (s.audit.tells_record _) e he).isPlain⟩

theorem Closes.outcome_eq (h : s.Closes request elapsed result es outcome) :
    outcome = result.map fun output => ⟨output, false⟩ := by
  cases h <;> rfl

/-- With the cache in use an output is stored first. -/
theorem Closes.stored {output : String}
    (h : s.Closes request elapsed result es (.ok ⟨output, false⟩)) (hc : s.cacheEnabled = true) :
    ∃ stored advised, Course (s.cache.put request.source output) stored advised ∧
    ∃ rest, es = stored ++ rest := by
  cases h with
  | @succeeds output stored told keeps tells =>
    simp only [Stores, hc, if_true] at keeps
    obtain ⟨events, advised, hput, rfl⟩ := keeps
    exact ⟨events, advised, hput, _, append_assoc ..⟩

theorem course_close : Course (s.close request elapsed result).run es outcome ↔
    s.Closes request elapsed result es outcome := by
  constructor
  · intro h
    cases result with
    | ok output =>
      cases hc : s.cacheEnabled with
      | true =>
        simp only [close, hc, if_true] at h
        obtain ⟨stored, rest, advised, rfl, hput, hrest⟩ := Action.course_lift_bind.mp h
        obtain ⟨settled, rest₁, ⟨⟩, rfl, hsettle, hrest₁⟩ := Action.course_lift_bind.mp hrest
        obtain ⟨rfl, -⟩ := course_settle.mp hsettle
        obtain ⟨told, rest₂, ⟨⟩, rfl, htold, hrest₂⟩ := Action.course_lift_bind.mp hrest₁
        obtain ⟨rfl, rfl⟩ := course_done.mp hrest₂
        rw [append_nil, ← append_assoc]
        refine .succeeds ?_ htold
        simp only [Stores, hc, if_true]
        exact ⟨stored, advised, hput, rfl⟩
      | false =>
        simp only [close, hc, Bool.false_eq_true, if_false] at h
        obtain ⟨told, rest, ⟨⟩, rfl, htold, hrest⟩ := Action.course_lift_bind.mp h
        obtain ⟨rfl, rfl⟩ := course_done.mp hrest
        rw [append_nil, ← nil_append told]
        refine .succeeds ?_ htold
        simp [Stores, hc]
    | error fault =>
      obtain ⟨⟨⟩, rest, rfl, hrest⟩ := Action.course_ask_bind.mp h
      obtain ⟨told, rest₁, ⟨⟩, rfl, htold, hrest₁⟩ := Action.course_lift_bind.mp hrest
      obtain ⟨rfl, rfl⟩ := course_throw.mp hrest₁
      rw [append_nil]
      exact .fails htold
  · intro h
    cases h with
    | @succeeds output stored told keeps tells =>
      have htold :
          Course ((liftM (s.audit.record (.generationCompleted (s.cache.hash request.source)
          elapsed.toSeconds)) : Action Unit) >>= fun _ => pure (⟨output, false⟩ : Generated)).run
          told (.ok ⟨output, false⟩) :=
        Action.course_lift_bind.mpr
          ⟨told, [], (), (append_nil told).symm, tells, Action.course_pure.mpr ⟨rfl, rfl⟩⟩
      cases hc : s.cacheEnabled with
      | true =>
        simp only [Stores, hc, if_true] at keeps
        obtain ⟨stored, advised, hput, rfl⟩ := keeps
        simp only [close, hc, if_true]
        refine Action.course_lift_bind.mpr ⟨stored, _, advised, append_assoc .., hput, ?_⟩
        exact Action.course_lift_bind.mpr ⟨_, told, (), rfl, course_settle.mpr ⟨rfl, rfl⟩, htold⟩
      | false =>
        simp only [Stores, hc, Bool.false_eq_true, if_false] at keeps
        subst keeps
        simp only [close, hc, Bool.false_eq_true, if_false]
        exact htold
    | @fails fault told tells =>
      exact Action.course_ask_bind.mpr ⟨(), told, rfl, Action.course_lift_bind.mpr
        ⟨told, [], (), (append_nil told).symm, tells, course_throw.mpr ⟨rfl, rfl⟩⟩⟩

/-- The end of a request makes the calls of a stored output, of the audit trail and of warnings. -/
theorem only_close (hput : ∀ output, (s.cache.put request.source output).Only allowed)
    (htell : ∀ event, (s.audit.record event).Only allowed)
    (hwarn : ∀ text fields, allowed (.warn text fields))
    (elapsed : Duration) (result : Except Fault String) :
    (s.close request elapsed result).run.Only allowed := by
  cases result with
  | ok output =>
    have htold : ((liftM (s.audit.record (.generationCompleted (s.cache.hash request.source)
        elapsed.toSeconds)) : Action Unit) >>= fun _ => pure (⟨output, false⟩ : Generated)).run.Only
        allowed := only_lift_bind (htell _) fun _ => only_done _
    cases hc : s.cacheEnabled with
    | true =>
      simp only [close, hc, if_true]
      apply only_lift_bind (hput output)
      intro stored
      exact only_lift_bind (only_settle stored "cache store" hwarn) fun _ => htold
    | false =>
      simp only [close, hc, Bool.false_eq_true, if_false]
      exact htold
  | error fault =>
    apply only_lift_bind (only_ask (c := s.failureWarning request fault) (hwarn _ _))
    intro _
    exact only_lift_bind (htell _) fun _ => only_done _

theorem Closes.kind (h : s.Closes request elapsed result es outcome) :
    ∀ e ∈ es, e.call.IsPlain ∨ e.call.kind = .move :=
  (course_close.mpr h).only
    (only_close (fun output => (s.cache.handles_put _ output).mono fun _ hc => hc.kind)
    (fun event => (s.audit.tells_record event).mono fun _ hc => .inl hc.isPlain) (fun _ _ =>
      .inl rfl) elapsed result)

/-- What was worked on is timed and closed. -/
theorem course_finish {p : Action String} : Course (s.finish request start p).run es outcome ↔
    ∃ work result t closing, Course p.run work result ∧
    es = work ++ ⟨.clock, t⟩ :: ⟨.record "generate" ⟨t - start⟩, ()⟩ :: closing ∧
    s.Closes request ⟨t - start⟩ result closing outcome := by
  constructor
  · intro h
    obtain ⟨work, rest, result, rfl, hwork, hrest⟩ := course_attempt_bind.mp h
    obtain ⟨read, rest₁, elapsed, rfl, hread, hrest₁⟩ := Action.course_lift_bind.mp hrest
    obtain ⟨t, rfl, rfl⟩ := course_elapsedSince.mp hread
    obtain ⟨⟨⟩, closing, rfl, hclose⟩ := Action.course_ask_bind.mp hrest₁
    exact ⟨work, result, t, closing, hwork, rfl, course_close.mp hclose⟩
  · rintro ⟨work, result, t, closing, hwork, rfl, hclose⟩
    refine course_attempt_bind.mpr ⟨work, _, result, rfl, hwork, ?_⟩
    exact Action.course_lift_bind.mpr ⟨[⟨.clock, t⟩], _, _, rfl,
      course_elapsedSince.mpr ⟨t, rfl, rfl⟩,
      Action.course_ask_bind.mpr ⟨(), closing, rfl, course_close.mpr hclose⟩⟩

/-- A request stays in a phase if its work does and all its other calls leave the phase as it is. -/
theorem obeys_generateRequest {φ : Type} {d : Discipline φ} {x : φ}
    (hkeep : ∀ c, allowed c → d.may x c ∧ ∀ r, d.after x c r = x) (hclock : allowed .clock)
    (hrecord : ∀ operation elapsed, allowed (.record operation elapsed))
    (hlookup : (s.lookup request.source).Only allowed)
    (hclose : ∀ elapsed result, (s.close request elapsed result).run.Only allowed)
    (hwork : (s.buildAndRun request).run.Obeys d (fun y _ => y = x) x) :
    (s.generateRequest request).run.Obeys d (fun y _ => y = x) x := by
  have helapsed (start : Nat) : (elapsedSince start).Only allowed := only_elapsedSince hclock start
  rw [generateRequest]
  apply obeys_lift_bind ((only_ask hclock).obeys hkeep)
  rintro _ start rfl
  apply obeys_lift_bind (hlookup.obeys hkeep)
  rintro _ found rfl
  cases found with
  | some output =>
    apply obeys_lift_bind ((helapsed start).obeys hkeep)
    rintro _ elapsed rfl
    apply obeys_lift_bind ((only_ask (hrecord _ elapsed)).obeys hkeep)
    rintro _ _ rfl
    exact obeys_done.mpr rfl
  | none =>
    apply obeys_lift_bind hwork
    rintro _ result rfl
    apply obeys_lift_bind ((helapsed start).obeys hkeep)
    rintro _ elapsed rfl
    apply obeys_lift_bind ((only_ask (hrecord _ elapsed)).obeys hkeep)
    rintro _ _ rfl
    exact (hclose elapsed result).obeys hkeep

/-- A request is looked up, and only if that brings nothing it is built, run, timed and closed. -/
theorem course_generateRequest (h : Course (s.generateRequest request).run es outcome) :
    ∃ start looked found rest, es = ⟨.clock, start⟩ :: (looked ++ rest) ∧
    Course (s.lookup request.source) looked found ∧
    ((∃ output t, found = some output ∧ outcome = .ok ⟨output, true⟩ ∧
    rest = [⟨.clock, t⟩, ⟨.record "generate" ⟨t - start⟩, ()⟩]) ∨
    found = none ∧ ∃ work result t closing, Course (s.buildAndRun request).run work result ∧
    rest = work ++ ⟨.clock, t⟩ :: ⟨.record "generate" ⟨t - start⟩, ()⟩ :: closing ∧
    s.Closes request ⟨t - start⟩ result closing outcome) := by
  obtain ⟨start, rest, rfl, hrest⟩ := Action.course_ask_bind.mp h
  obtain ⟨looked, rest₁, found, rfl, hlooked, hrest₁⟩ := Action.course_lift_bind.mp hrest
  refine ⟨start, looked, found, rest₁, rfl, hlooked, ?_⟩
  cases found with
  | some output =>
    left
    obtain ⟨read, rest₂, elapsed, rfl, hread, hrest₂⟩ := Action.course_lift_bind.mp hrest₁
    obtain ⟨t, rfl, rfl⟩ := course_elapsedSince.mp hread
    obtain ⟨⟨⟩, rest₃, rfl, hrest₃⟩ := Action.course_ask_bind.mp hrest₂
    obtain ⟨rfl, rfl⟩ := course_done.mp hrest₃
    exact ⟨output, t, rfl, rfl, rfl⟩
  | none => exact .inr ⟨rfl, course_finish.mp hrest₁⟩

end Service

end Foundry
