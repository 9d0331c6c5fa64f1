import Foundry.Proofs.Service.Audited
import Foundry.Proofs.Service.Leeway
import Foundry.Proofs.Template.Trouble

/-!
# Falling back to the remote dependency

A request that waits for a template whose build fails goes on as if there were no template.
Leave out the four calls that it spent on the template, and what is left is, call by call
and reply by reply, a course of the service with its template out of use. The time is gone,
though: the deadline stays where it was.
-/

namespace Foundry

open Program List Action

namespace Service

variable {reply : JobReply} {fault : Fault} {begun : Nat} {text : String}
variable {s : Service} {request : Request} {es own : List Event} {outcome : Except Fault Generated}
  {deadline job arrived : Nat} {looked rest : List Event}

/-- The service with its template out of use. -/
def withoutTemplate (s : Service) : Service := { s with templateEnabled := false }

/-- What a request spends on a template whose build fails. -/
def fallback (s : Service) (job deadline : Nat) (fault : Fault) : List Event :=
  [⟨.isFile s.template.marker, false⟩, ⟨.startJob, job⟩,
    ⟨.awaitJob job deadline, .finished (.error fault)⟩,
    ⟨.warn ("Dependency template unavailable, using remote dependency: " ++ fault.message) [], ()⟩]

theorem course_awaited {limit : Nat} {r : Except Fault DependencyRef}
    (h : Course (s.dependencyRef request limit).run es r)
    (hawait : (⟨.awaitJob job deadline, reply⟩ : Event) ∈ es) :
    ∃ told, es = s.awaitEvents job deadline reply ++ told ∧ Takes request reply told r := by
  cases refers_of_course h with
  | unused => cases hawait
  | ready => simp at hawait
  | @awaited started heard told r takes =>
    have htold : (⟨.awaitJob job deadline, reply⟩ : Event) ∉ told := by
      cases takes <;> simp
    obtain ⟨⟨rfl, rfl⟩, rfl⟩ : (job = started ∧ deadline = limit) ∧ reply = heard := by
      simpa [htold, awaitEvents] using hawait
    exact ⟨told, rfl, takes⟩

/-! ## After the template -/

theorem work_kind (s : Service) (request : Request) (deadline : Nat) (dependency : DependencyRef) :
    (s.work request deadline dependency).run.Only (·.kind ≠ .job) :=
  only_work (fun _ hc => by simp [hc.isPlain]) (by simp [Call.kind])
    (fun _ _ => by simp [Call.kind]) fun _ _ => by simp [Call.kind]

/-- A request that has waited for its template, cut where it turns to the template and where it
goes on. -/
theorem cut_at_await (h : Course (s.generateRequest request).run own outcome)
    (hawait : (⟨.awaitJob job deadline, reply⟩ : Event) ∈ own) : ∃ arrived looked begun told rest r,
    own = ⟨.clock, arrived⟩ :: (looked ++ ⟨.clock, begun⟩ ::
    (s.awaitEvents job deadline reply ++ told ++ rest)) ∧
    Course (s.lookup request.source) looked none ∧ Takes request reply told r ∧
    (∀ dependency, r = .ok dependency →
    Course (s.finish request arrived
    (s.work request (begun + request.timeout.nanos) dependency)).run rest outcome) ∧
    ∀ fault, r = .error fault → ∃ t closing,
    rest = ⟨.clock, t⟩ :: ⟨.record "generate" ⟨t - arrived⟩, ()⟩ :: closing ∧
    s.Closes request ⟨t - arrived⟩ (.error fault) closing outcome := by
  have hjob {events : List Event} (hkind : ∀ e ∈ events, e.call.kind ≠ .job) :
      (⟨.awaitJob job deadline, reply⟩ : Event) ∉ events :=
    fun hmem => hkind _ hmem rfl
  obtain ⟨arrived, looked, found, rest, rfl, hlooked, hrest⟩ := course_generateRequest h
  have hnotLooked := hjob fun e he => ((hlooked.only (looksUp_lookup s _)) e he).kind_ne.2
  rcases hrest with ⟨output, t, -, -, rfl⟩ | ⟨rfl, worked, result, t, closing, hwork, rfl, hclose⟩
  · simp [hnotLooked] at hawait
  have hnotClosing := hjob fun e he => by
    rcases hclose.kind e he with hkind | hkind <;> simp [hkind]
  rw [buildAndRun] at hwork
  obtain ⟨begun, rest, rfl, hbuild⟩ := Action.course_ask_bind.mp hwork
  have hmem : (⟨.awaitJob job deadline, reply⟩ : Event) ∈ rest := by
    simpa [hnotLooked, hnotClosing] using hawait
  rcases Action.course_bind.mp hbuild with ⟨readied, worked, dependency, rfl, hready, hworked⟩ |
    ⟨raised, rfl, hready⟩
  · have hnotWorked := hjob (hworked.only (s.work_kind request _ dependency))
    have hreadied : (⟨.awaitJob job deadline, reply⟩ : Event) ∈ readied := by
      simpa [hnotWorked] using hmem
    obtain ⟨told, rfl, htakes⟩ := course_awaited hready hreadied
    refine ⟨arrived, looked, begun, told,
      worked ++ ⟨.clock, t⟩ :: ⟨.record "generate" ⟨t - arrived⟩, ()⟩ :: closing, _, ?_, hlooked,
      htakes, ?_, ?_⟩
    · simp
    · rintro _ ⟨⟩
      exact course_finish.mpr ⟨worked, result, t, closing, hworked, rfl, hclose⟩
    · rintro _ ⟨⟩
  · obtain ⟨told, rfl, htakes⟩ := course_awaited hready hmem
    refine ⟨arrived, looked, begun, told,
      ⟨.clock, t⟩ :: ⟨.record "generate" ⟨t - arrived⟩, ()⟩ :: closing, _, ?_, hlooked, htakes, ?_,
      ?_⟩
    · simp
    · rintro _ ⟨⟩
    rintro _ ⟨⟩
    exact ⟨t, closing, rfl, hclose⟩

/-- A request whose template fails goes on with the remote dependency. -/
theorem cut_at_fallback (h : Course (s.generateRequest request).run own outcome)
    (hawait : (⟨.awaitJob job deadline, .finished (.error fault)⟩ : Event) ∈ own) :
    ∃ arrived looked begun rest,
    own = ⟨.clock, arrived⟩ ::
    (looked ++ ⟨.clock, begun⟩ :: (s.fallback job deadline fault ++ rest)) ∧
    Course (s.lookup request.source) looked none ∧
    Course (s.finish request arrived (s.work request (begun + request.timeout.nanos) .remote)).run
    rest outcome := by
  obtain ⟨arrived, looked, begun, told, rest, r, rfl, hlooked, htakes, hfinish, -⟩ :=
    cut_at_await h hawait
  cases htakes with
  | failed => exact ⟨arrived, looked, begun, rest, rfl, hlooked, hfinish .remote rfl⟩

/-- Without a template a request that is not in the cache goes straight on. -/
theorem course_withoutTemplate (hlooked : Course (s.lookup request.source) looked none) :
    Course (s.withoutTemplate.generateRequest request).run
    (⟨.clock, arrived⟩ :: (looked ++ ⟨.clock, begun⟩ :: rest)) outcome ↔
    Course (s.finish request arrived (s.work request (begun + request.timeout.nanos) .remote)).run
    rest outcome := by
  rw [generateRequest]
  constructor
  · intro h
    obtain ⟨arrived', rest₁, heq, hrest⟩ := Action.course_ask_bind.mp h
    cases heq
    obtain ⟨looked', rest₂, found, heq, hlooked', hmiss⟩ := course_lift_bind.mp hrest
    obtain ⟨rfl, rfl, rfl⟩ := hlooked.deterministic hlooked' heq
    obtain ⟨begun', rest₃, heq, hfinish⟩ := Action.course_ask_bind.mp hmiss
    cases heq
    exact hfinish
  · intro hfinish
    refine Action.course_ask_bind.mpr ⟨arrived, _, rfl, course_lift_bind.mpr
      ⟨looked, _, none, rfl, hlooked, ?_⟩⟩
    exact Action.course_ask_bind.mpr ⟨begun, rest, rfl, hfinish⟩

/-! ## At another time -/

variable {arrived arrived' deadline deadline' : Nat} {dependency : DependencyRef}
  {start now now' : Nat}

theorem twins_finish : Twins (Event.Retimed s.audit deadline deadline') (· = ·)
    (s.finish request arrived (s.work request deadline dependency)).run
    (s.finish request arrived' (s.work request deadline' dependency)).run := by
  apply twins_lift_bind (paces_retimed.work dependency)
  rintro result _ rfl
  apply twins_lift_bind (twins_elapsedSince arrived arrived')
  intro elapsed elapsed' _
  apply twins_lift_bind (Foundry.twins_record _ elapsed elapsed')
  intro _ _ _
  exact twins_close elapsed elapsed' result

/-! ## Faults of the template -/

theorem reply_of_runStage {command : Command}
    (h : Course (runStage command request deadline).run es (.error (.templateBuild text))) :
    ∃ c d, (⟨.run c d, .error (.templateBuild text)⟩ : Event) ∈ es := by
  rcases course_runStage_cases h with ⟨_, -, -, hr⟩ | ⟨t, t₁, t₂, reply, -, rfl, hr⟩
  · cases hr
  unfold stageOutcome at hr
  split at hr
  · cases hr
  subst hr
  exact ⟨command, ⟨deadline - t⟩, by simp [stageEvents]⟩

/-- A fault of the template can come out of a workspace only if a command brought it. -/
theorem reply_of_work
    (h : Course (s.work request deadline dependency).run es (.error (.templateBuild text))) :
    ∃ c d, (⟨.run c d, .error (.templateBuild text)⟩ : Event) ∈ es := by
  cases worked_of_course h with
  | uncreated creates =>
    have havoids : (s.workspaces.create request.source dependency).Avoids
        fun fault => fault = .templateBuild text :=
      Workspaces.avoids_create (fun _ _ => Fault.noConfusion) (fun _ _ => Fault.noConfusion) _ _ _
    exact absurd rfl (havoids _ _ creates)
  | created creates stages drops =>
    obtain ⟨command, es', -, hrun, hsub⟩ := exists_runStage id stages
    obtain ⟨c, d, hmem⟩ := reply_of_runStage hrun
    exact ⟨c, d, by simp [hsub _ hmem]⟩

theorem reply_of_finish
    (h : Course (s.finish request arrived (s.work request deadline dependency)).run es
    (.error (.templateBuild text))) :
    ∃ c d, (⟨.run c d, .error (.templateBuild text)⟩ : Event) ∈ es := by
  obtain ⟨worked, result, t, closing, hwork, rfl, hclose⟩ := course_finish.mp h
  have houtcome := hclose.outcome_eq
  cases result with
  | ok output => cases houtcome
  | error fault =>
    obtain rfl := Except.error.inj houtcome
    obtain ⟨c, d, hmem⟩ := reply_of_work hwork
    exact ⟨c, d, mem_append_left _ hmem⟩

/-! ## The whole request -/

theorem startsAt_unique (hlooked : Course (s.lookup request.source) looked none)
    (h : s.StartsAt request (⟨.clock, arrived⟩ :: (looked ++ ⟨.clock, begun⟩ :: rest)) start) :
    start = begun := by
  obtain ⟨_, looked', rest', heq, hlooked'⟩ := h
  obtain ⟨-, heq⟩ := List.cons.inj heq
  obtain ⟨rfl, -, heq⟩ := hlooked.deterministic hlooked' heq
  cases heq
  rfl

/-- Without a template, requests that are answered alike but for the time do the same. -/
theorem retimed_of_heardAlike {bare : List Event} {outcome' : Except Fault Generated}
    (hlooked : Course (s.lookup request.source) looked none)
    (hfinish :
    Course (s.finish request arrived (s.work request (begun + request.timeout.nanos) .remote)).run
    rest outcome) (hbare : Course (s.withoutTemplate.generateRequest request).run bare outcome')
    (hstart : s.StartsAt request bare start)
    (heard : HeardAlike (Event.Retimed s.audit (begun + request.timeout.nanos)
    (start + request.timeout.nanos)) (⟨.clock, arrived⟩ :: (looked ++ ⟨.clock, begun⟩ :: rest))
    bare) :
    List.Forall₂
    (Event.Retimed s.audit (begun + request.timeout.nanos) (start + request.timeout.nanos))
    (⟨.clock, arrived⟩ :: (looked ++ ⟨.clock, begun⟩ :: rest)) bare ∧ outcome' = outcome := by
  obtain ⟨arrived', looked', rest', rfl, hlooked'⟩ := hstart
  have hfinish' := (course_withoutTemplate hlooked').mp hbare
  have hread (t : Nat) : Course (ask .clock) [⟨.clock, t⟩] t := course_ask.mpr rfl
  obtain ⟨harrived, -, heard⟩ := twins_clock.aligned (hread arrived) (hread arrived') heard
  obtain ⟨hlooks, -, heard⟩ := (twins_lookup _).aligned hlooked hlooked' heard
  obtain ⟨hbegun, -, heard⟩ := twins_clock.aligned (hread begun) (hread start) heard
  rw [← append_nil rest, ← append_nil rest'] at heard
  obtain ⟨hrest, rfl, -⟩ := twins_finish.aligned hfinish hfinish' heard
  exact ⟨rel_append harrived (rel_append hlooks (rel_append hbegun hrest)), rfl⟩


/-- A background job whose build of the template fails, fails with the same fault. -/
theorem error_of_job {steps more : List Event} {t : Nat} {result : Except Fault Bool}
    (hjob : Course s.ensureTemplate.run (⟨.clock, t⟩ :: (steps ++ more)) result)
    (hsteps : Course s.template.ensure.run steps (.error fault)) : result = .error fault := by
  obtain ⟨t', rest, heq, hrest⟩ := Action.course_ask_bind.mp hjob
  cases heq
  rcases Action.course_bind.mp hrest with ⟨before, after, built, heq, hbefore, -⟩ |
    ⟨raised, rfl, hraised⟩
  · obtain ⟨-, hr, -⟩ := hsteps.deterministic hbefore heq
    cases hr
  obtain ⟨-, hr, -⟩ := hsteps.deterministic hraised (append_nil _).symm
  exact hr.symm

/-- Whatever goes wrong in the job that builds the template, the request that waits for it spends
four calls on it and then does what it would do with the template out of use: what is left of its
course is a course of that service, with the same outcome. Any other course of that service, at
other times but answered alike, agrees with it call by call and in its outcome, where the clock
agrees on whether the deadline has passed. So no fault of the template is returned, unless a command
brought it. -/
theorem template_trouble_costs_only_time {source : String} {timeout : Option Binary64}
    {steps more : List Event} {ensured result : Except Fault Bool} {t job limit : Nat}
    (h : Course (s.generate source timeout).run own outcome)
    (hjob : Course s.ensureTemplate.run (⟨.clock, t⟩ :: (steps ++ more)) result)
    (hsteps : Course s.template.ensure.run steps ensured) (htrouble : ∃ e ∈ steps, e.IsTrouble)
    (hawait : (⟨.awaitJob job limit, .finished result⟩ : Event) ∈ own) :
    ∃ request fault before after, s.limits.validate source timeout = .ok request ∧
      own = before ++ s.fallback job limit fault ++ after ∧
      Course (s.withoutTemplate.generate source timeout).run (before ++ after) outcome ∧
      (∀ start bare start' outcome', s.StartsAt request own start →
        Course (s.withoutTemplate.generate source timeout).run bare outcome' →
        s.StartsAt request bare start' →
        HeardAlike
        (Event.Retimed s.audit (start + request.timeout.nanos) (start' + request.timeout.nanos))
          (before ++ after) bare →
        List.Forall₂ (Event.Retimed s.audit (start + request.timeout.nanos)
          (start' + request.timeout.nanos)) (before ++ after) bare ∧ outcome' = outcome) ∧
      ∀ text, outcome = .error (.templateBuild text) →
        ∃ c d, (⟨.run c d, .error (.templateBuild text)⟩ : Event) ∈ after := by
  obtain ⟨fault, rfl⟩ := Template.error_of_trouble hsteps htrouble
  obtain rfl := error_of_job hjob hsteps
  rcases course_generate h with ⟨_, -, rfl, -⟩ | ⟨request, hvalid, hrequest⟩
  · cases hawait
  obtain ⟨arrived, looked, begun, rest, rfl, hlooked, hfinish⟩ := cut_at_fallback hrequest hawait
  have hleft : ⟨.clock, arrived⟩ :: (looked ++ [⟨.clock, begun⟩]) ++ rest =
      (⟨.clock, arrived⟩ :: (looked ++ ⟨.clock, begun⟩ :: rest) : List Event) := by simp
  have hgenerate {es : List Event} {r : Except Fault Generated} :
      Course (s.withoutTemplate.generate source timeout).run es r ↔
        Course (s.withoutTemplate.generateRequest request).run es r := by
    have heq : s.withoutTemplate.limits.validate source timeout = .ok request := hvalid
    rw [generate, heq]
  refine ⟨request, fault, ⟨.clock, arrived⟩ :: (looked ++ [⟨.clock, begun⟩]), rest, hvalid, by simp,
    ?_, ?_, ?_⟩
  · rw [hleft, hgenerate]
    exact (course_withoutTemplate hlooked).mpr hfinish
  · intro start bare start' outcome' hstart hbare hstart' heard
    obtain rfl := startsAt_unique hlooked hstart
    rw [hleft] at heard ⊢
    exact retimed_of_heardAlike hlooked hfinish (hgenerate.mp hbare) hstart' heard
  · rintro text rfl
    exact reply_of_finish hfinish

/-- A service with little to write. -/
def modest : Service where
  limits := default
  cache := { dir := "cache", maxEntries := 3, maxAge := 0, hash := id }
  cacheEnabled := false
  template :=
    { root := "kit", lockPath := "kit.lock", buildCommand := "sh", buildArgs := [], env := []
      manifestFile := "m", manifest := "", sourceFile := "s", source := "", buildTimeout := ⟨9⟩
      lockWait := ⟨9⟩ }
  templateEnabled := true
  workspaces :=
    { root := "rooms", templateRoot := "kit"
      toolchain :=
        { buildCommand := "sh", buildArgs := [], runCommand := "sh", runArgs := [], env := []
          manifestFile := "m", manifest := "", sourceFile := "s", source := "", artifacts := []
          dependency := { name := "", remote := "", localRef := "" } } }
  audit := ⟨false, "audit.log"⟩
  sentinel := "begin"

/-- Commands that do not succeed. -/
def badReply : (c : Call) → c.Reply
  | .run .. => .ok ⟨1, .empty, .empty⟩
  | c => freshReply c

/-- A command that does not succeed. -/
def failsToRun : Event → Bool
  | ⟨.run .., .ok result⟩ => !result.succeeded
  | _ => false

/-- A clock that stands still, and a template that cannot be built. -/
def stillReply (now : Nat) : (c : Call) → c.Reply
  | .clock => now
  | .awaitJob .. => .finished (modest.template.ensure.run.follow (fun _ => badReply) []).2
  | c => freshReply c

theorem stillReply_heq {c c' : Call} (h : Call.Retimed log c c') (hne : c ≠ .clock) :
    stillReply now c ≍ stillReply now' c' := by
  cases h with
  | same =>
    cases c with
    | clock => exact absurd rfl hne
    | _ => exact .rfl
  | run | record | warn | append => exact .rfl

/-- Where the clock stands still requests are answered alike at all times. -/
theorem heardAlike_stillReply {span : Nat} {es' : List Event}
    (hes : ∀ e ∈ es, e.reply = stillReply now e.call)
    (hes' : ∀ e ∈ es', e.reply = stillReply now' e.call) :
    HeardAlike (Event.Retimed log (now + span) (now' + span)) es es' := by
  induction es generalizing es' with
  | nil => trivial
  | cons e es ih =>
    cases es' with
    | nil => trivial
    | cons e' es' =>
      obtain ⟨he, hrest⟩ := forall_mem_cons.mp hes
      obtain ⟨he', hrest'⟩ := forall_mem_cons.mp hes'
      obtain ⟨c, r⟩ := e
      obtain ⟨c', r'⟩ := e'
      obtain rfl : r = stillReply now c := he
      obtain rfl : r' = stillReply now' c' := he'
      rintro ⟨_, _, hasks⟩
      refine ⟨?_, ih hrest hrest'⟩
      cases hasks with
      | clock => exact .clock (by simp [stillReply])
      | call hne hlike => exact .call hne ⟨hlike.1, stillReply_heq hlike.1 hne⟩

theorem startsAt_of_missed {output : String}
    (h : Course (s.generateRequest request).run own (.ok ⟨output, false⟩)) :
    ∃ start, s.StartsAt request own start ∧ (⟨.clock, start⟩ : Event) ∈ own := by
  obtain ⟨arrived, looked, found, rest, rfl, hlooked, ⟨_, _, -, heq, -⟩ |
    ⟨rfl, worked, result, t, closing, hwork, rfl, -⟩⟩ := course_generateRequest h
  · cases heq
  rw [buildAndRun] at hwork
  obtain ⟨begun, rest, rfl, -⟩ := Action.course_ask_bind.mp hwork
  exact ⟨begun, ⟨arrived, looked, _, rfl, hlooked⟩, by simp⟩

/-- A template that cannot be built, and a request without one that comes later. -/
theorem template_trouble_costs_only_time_modest :
    ∃ own before after bare job limit fault,
      Course (modest.generate "x" none).run own (.ok ⟨"done", false⟩) ∧
      own = before ++ modest.fallback job limit fault ++ after ∧
      Course (modest.withoutTemplate.generate "x" none).run (before ++ after)
      (.ok ⟨"done", false⟩) ∧
      Course (modest.withoutTemplate.generate "x" none).run bare (.ok ⟨"done", false⟩) ∧
      (⟨.clock, 7⟩ : Event) ∈ bare ∧
      List.Forall₂ (Event.Retimed modest.audit (5 + 240000000000) (7 + 240000000000))
      (before ++ after) bare := by
  have hvalid : modest.limits.validate "x" none = .ok ⟨"x", ⟨240000000000⟩⟩ :=
    Except.eq_ok_of_toOption (by decide +kernel)
  have hok : ((modest.generate "x" none).run.follow (fun _ => stillReply 5) []).2 =
      .ok ⟨"done", false⟩ :=
    Except.eq_ok_of_toOption (by decide +kernel)
  have hok' : ((modest.withoutTemplate.generate "x" none).run.follow (fun _ => stillReply 7) []).2 =
      .ok ⟨"done", false⟩ := Except.eq_ok_of_toOption (by decide +kernel)
  have hcourse := course_follow (fun _ => stillReply 5) [] (modest.generate "x" none).run
  have hbare :=
    course_follow (fun _ => stillReply 7) [] (modest.withoutTemplate.generate "x" none).run
  have hsteps := course_follow (fun _ => badReply) [] modest.template.ensure.run
  have hfailed :
      (modest.template.ensure.run.follow (fun _ => badReply) []).1.any failsToRun = true := by
    decide +kernel
  have htrouble : ∃ e ∈ (modest.template.ensure.run.follow (fun _ => badReply) []).1,
      e.IsTrouble := by
    obtain ⟨⟨c, r⟩, he, hrun⟩ := List.any_eq_true.mp hfailed
    cases c with
    | run =>
      cases r with
      | ok result =>
        have hcode : result.succeeded = false := by simpa [failsToRun] using hrun
        exact ⟨_, he, hcode⟩
      | error fault => cases hrun
    | _ => cases hrun
  have hjob : Course modest.ensureTemplate.run
      (⟨.clock, 5⟩ :: ((modest.template.ensure.run.follow (fun _ => badReply) []).1 ++ []))
      (modest.template.ensure.run.follow (fun _ => badReply) []).2 := by
    obtain ⟨fault, hfault⟩ := Template.error_of_trouble hsteps htrouble
    rw [hfault] at hsteps
    rw [hfault, List.append_nil]
    exact Action.course_ask_bind.mpr ⟨5, _, rfl,
      Action.course_bind.mpr (Or.inr ⟨fault, rfl, hsteps⟩)⟩
  have hawaits : ((modest.generate "x" none).run.follow (fun _ => stillReply 5) []).1.any awaits =
      true := by
    decide +kernel
  have hreply (e : Event)
      (he : e ∈ ((modest.generate "x" none).run.follow (fun _ => stillReply 5) []).1) :
      e.reply = stillReply 5 e.call := by
    obtain ⟨_, hpast⟩ := (answers_follow _ _ _).mem he
    exact hpast
  have hreply' (e : Event)
      (he : e ∈
        ((modest.withoutTemplate.generate "x" none).run.follow (fun _ => stillReply 7) []).1) :
      e.reply = stillReply 7 e.call := by
    obtain ⟨_, hpast⟩ := (answers_follow _ _ _).mem he
    exact hpast
  generalize ((modest.generate "x" none).run.follow (fun _ => stillReply 5) []).1 = own at *
  generalize ((modest.withoutTemplate.generate "x" none).run.follow (fun _ => stillReply 7) []).1 =
    bare at *
  rw [hok] at hcourse
  rw [hok'] at hbare
  obtain ⟨⟨c, r⟩, he, hc⟩ := List.any_eq_true.mp hawaits
  cases c with
  | awaitJob job limit =>
    obtain rfl : r = stillReply 5 (.awaitJob job limit) := hreply _ he
    obtain ⟨request, fault, before, after, hrequest, hcut, hleft, hother, -⟩ :=
      template_trouble_costs_only_time hcourse hjob hsteps htrouble he
    obtain rfl := Except.ok.inj (hvalid.symm.trans hrequest)
    have howned : Course (modest.generateRequest ⟨"x", ⟨240000000000⟩⟩).run own
        (.ok ⟨"done", false⟩) := by
      rcases course_generate hcourse with ⟨_, -, -, hr⟩ | ⟨request, hrequest, h⟩
      · cases hr
      obtain rfl := Except.ok.inj (hvalid.symm.trans hrequest)
      exact h
    have hbared : Course (modest.withoutTemplate.generateRequest ⟨"x", ⟨240000000000⟩⟩).run bare
        (.ok ⟨"done", false⟩) := by
      rcases course_generate hbare with ⟨_, -, -, hr⟩ | ⟨request, hrequest, h⟩
      · cases hr
      obtain rfl := Except.ok.inj (hvalid.symm.trans hrequest)
      exact h
    obtain ⟨start, hstart, hread⟩ := startsAt_of_missed howned
    obtain ⟨start', hstart', hread'⟩ := startsAt_of_missed hbared
    obtain rfl : start = 5 := hreply _ hread
    obtain rfl : start' = 7 := hreply' _ hread'
    have hheard : HeardAlike (Event.Retimed modest.audit (5 + 240000000000) (7 + 240000000000))
        (before ++ after) bare := by
      refine heardAlike_stillReply (fun e he => hreply e ?_) hreply'
      rw [hcut]
      rcases List.mem_append.mp he with he | he
      · exact List.mem_append_left _ (List.mem_append_left _ he)
      · exact List.mem_append_right _ he
    obtain ⟨haligned, -⟩ := hother 5 bare 7 _ hstart hbare hstart' hheard
    exact ⟨own, before, after, bare, job, limit, fault, hcourse, hcut, hleft, hbare, hread',
      haligned⟩
  | _ => cases hc

/-- A machine on which the template fails after 150 seconds and a build takes 100. -/
def tardy : Machine :=
  { Machine.bare with
    job := modest.ensureTemplate.run
    runner := .scripted
      [("template build",
        [fun _ _ => { rest := ⟨150000000000⟩, outcome := .ok ⟨1, .empty, .empty⟩ }]),
        ("build", [fun _ _ => { rest := ⟨100000000000⟩, outcome := .ok ⟨0, .empty, .empty⟩ }])] }

/-- How a request to a service ends there. -/
def endsTardily (s : Service) : Option (Except Fault Generated) :=
  match tardy.runTask none none 100 (.ofProgram (s.generate "x" none).run) with
  | (_, .ended r) => some r
  | _ => none

/-- The time that was spent on a template is missing later. -/
theorem failed_template_uses_up_time :
    endsTardily modest = some (.error (.timeout "run" (Duration.toSeconds ⟨240000000000⟩))) ∧
      endsTardily modest.withoutTemplate = some (.ok ⟨"", false⟩) := by
  decide +kernel

end Service

end Foundry
