import Foundry.Proofs.Service.Balance

/-!
# Accounting

A service that starts with empty books answers one call after another, while builds of the
template go on in the background. At the end the log holds one line for each call that was
accepted and that the cache did not answer, in the order of the calls, and one for each build
of the template that built something. Of samples there is one for each command, and besides
one for each request, for each look into the cache and for each workspace that was made.
-/

namespace Foundry

variable {α : Type} {outcomes : List (Except Fault Generated)}

open Program List AuditLog

/-! ## Builds of the template -/

/-- Calls that a background build may make: of samples and commands, only its own. -/
def Call.IsBuilders : Call → Prop
  | .record operation _ => operation = "template_ensure"
  | .run command _ => command.stage = "template build"
  | _ => True

namespace Service

variable {r : Except Fault Bool} {t : Template} {c : Call} {visits : List Visit}
variable {s : Service} {request : Request} {es : List Event}

/-- What is recorded of a background build. -/
def builtEvent? (s : Service) : Except Fault Bool → Option AuditEvent
  | .ok true => some (.templateBuilt s.template.root.toUTF8)
  | _ => none

theorem isText_builtEvent? (e : AuditEvent) (h : s.builtEvent? r = some e) : e.IsText := by
  unfold builtEvent? at h
  split at h
  · cases h
    exact AuditEvent.isText_templateBuilt _
  · cases h

theorem Builds.isBuilders (h : t.Builds c) : c.IsBuilders := by
  cases c with
  | run command timeout =>
    obtain rfl : command = t.command := h
    rfl
  | record => exact h.elim
  | _ => trivial

theorem Builds.not_isAppend (h : t.Builds c) : ¬ c.IsAppend := by
  cases c with
  | appendFile => exact h.elim
  | _ => exact id

/-- A build is reported if it has built something. -/
theorem reports_ensureTemplate (h : Course s.ensureTemplate.run es r) :
    s.audit.Reports es (s.builtEvent? r) ∧ ∀ e ∈ es, e.call.IsBuilders := by
  obtain ⟨t, ensured, rest, ended, rfl, hensure, hrest⟩ := course_ensureTemplate h
  have hensured := hensure.only (Template.builds_of_once s.template.once_ensure)
  have hbefore : ∀ e ∈ (⟨.clock, t⟩ :: ensured : List Event), ¬ e.call.IsAppend ∧
      e.call.IsBuilders :=
    forall_mem_cons.mpr ⟨⟨id, trivial⟩, fun e he =>
      ⟨Builds.not_isAppend (hensured e he), Builds.isBuilders (hensured e he)⟩⟩
  suffices hrest : s.audit.Reports rest (s.builtEvent? r) ∧ ∀ e ∈ rest, e.call.IsBuilders from
    ⟨hrest.1.append fun e he => (hbefore e he).1,
      forall_mem_append.mpr ⟨fun e he => (hbefore e he).2, hrest.2⟩⟩
  rcases hrest with ⟨fault, rfl, rfl⟩ | ⟨built, t', told, rfl, rfl, htold⟩
  · exact ⟨by simp [builtEvent?, Reports], by simp⟩
  have htells (e : Event) (he : e ∈ told) : e.call.IsBuilders := by
    have htells := htold.only (s.tells_auditBuilt built) e he
    obtain ⟨c, r⟩ := e
    cases c with
    | run | record => exact htells.elim
    | _ => trivial
  refine ⟨?_, forall_mem_cons.mpr ⟨trivial, forall_mem_cons.mpr ⟨rfl, htells⟩⟩⟩
  cases built with
  | true => exact ⟨[_, _], told, rfl, by simp [Call.IsAppend], htold⟩
  | false =>
    obtain ⟨rfl, -⟩ := course_done.mp htold
    simp [builtEvent?, Reports, Call.IsAppend]

/-! ## Calls one after another -/

/-- A call with all that has come of it. -/
structure Visit where
  source : String
  timeout : Option Binary64
  outcome : Except Fault Generated
  events : List Event
  /-- Whether it has made a workspace. -/
  created : Bool
  /-- How long it took, and when that was recorded. -/
  elapsed : Duration
  stamp : Stamp

namespace Visit

def accepted? (s : Service) (v : Visit) : Option Request :=
  (s.limits.validate v.source v.timeout).toOption

/-- The line that a call leaves in the log. -/
def line? (s : Service) (v : Visit) : Option ByteArray :=
  (v.accepted? s).bind fun request => (s.eventOf? request v.elapsed v.outcome).map (·.bytes v.stamp)

/-- The names under which a call takes samples besides those of its commands. -/
def samples (s : Service) (v : Visit) : List String :=
  match v.accepted? s with
  | some _ => s.lookupSamples ++ creationSamples v.created ++ ["generate"]
  | none => []

/-- The parts of a visit belong together. -/
structure Fits (s : Service) (v : Visit) : Prop where
  /-- A source that is refused changes nothing. -/
  refused : ∀ fault, s.limits.validate v.source v.timeout = .error fault →
    v.outcome = .error fault ∧ v.events = [] ∧ v.created = false
  accepted : ∀ request, s.limits.validate v.source v.timeout = .ok request →
    Course (s.generateRequest request).run v.events v.outcome ∧
      s.Creates request.source v.events v.created

end Visit

/-- What a call leaves behind, with the log in use and writable. -/
theorem exists_visit {source : String} {timeout : Option Binary64}
    {outcome : Except Fault Generated}
    (henabled : s.audit.enabled = true) (h : Course (s.generate source timeout).run es outcome)
    (haccepts : ∀ e ∈ es, s.audit.Accepts e) :
    ∃ v : Visit, (v.source, v.timeout) = (source, timeout) ∧ v.outcome = outcome ∧ v.events = es ∧
    v.Fits s ∧ Balances es (v.samples s) ∧ s.audit.written es = (v.line? s).toList := by
  rcases course_generate h with ⟨fault, hfault, rfl, rfl⟩ | ⟨request, hrequest, hcourse⟩
  · refine ⟨⟨source, timeout, .error fault, [], false, ⟨0⟩, default⟩, rfl, rfl, rfl, ⟨?_, ?_⟩, ?_,
      ?_⟩
    · intro fault' hfault'
      rw [hfault] at hfault'
      cases hfault'
      exact ⟨rfl, rfl, rfl⟩
    · intro request hrequest
      rw [hfault] at hrequest
      cases hrequest
    · have hnil : Balances [] [] := .of_quiet (by simp)
      simpa [Visit.samples, Visit.accepted?, hfault, Except.toOption] using hnil
    · simp [Visit.line?, Visit.accepted?, hfault, Except.toOption, written]
  · obtain ⟨created, hbalances, hcreates⟩ := balances_generateRequest hcourse
    obtain ⟨elapsed, hreports, -⟩ := reports_generateRequest hcourse
    obtain ⟨now, hwritten⟩ := hreports.written_eq henabled isText_entry? haccepts
    refine ⟨⟨source, timeout, outcome, es, created, elapsed, now⟩, rfl, rfl, rfl, ⟨?_, ?_⟩, ?_, ?_⟩
    · intro fault hfault
      rw [hrequest] at hfault
      cases hfault
    · intro request' hrequest'
      rw [hrequest] at hrequest'
      cases hrequest'
      exact ⟨hcourse, hcreates⟩
    · simpa [Visit.samples, Visit.accepted?, hrequest, Except.toOption] using hbalances
    rw [hwritten]
    cases hentry : s.eventOf? request elapsed outcome <;>
      simp [Visit.line?, Visit.accepted?, hrequest, Except.toOption, hentry]

/-- Answer calls one after another. -/
def generateAll (s : Service) :
    List (String × Option Binary64) → Program (List (Except Fault Generated))
  | [] => return []
  | (source, timeout) :: rest => do
    let outcome ← (s.generate source timeout).run
    let outcomes ← s.generateAll rest
    return outcome :: outcomes

/-- The books of calls one after another are those of the single calls, in order. -/
theorem exists_visits {calls : List (String × Option Binary64)} (henabled : s.audit.enabled = true)
    (h : Course (s.generateAll calls) es outcomes) (haccepts : ∀ e ∈ es, s.audit.Accepts e) :
    ∃ visits : List Visit, visits.map (fun v => (v.source, v.timeout)) = calls ∧
    visits.map (·.outcome) = outcomes ∧ visits.flatMap (·.events) = es ∧ (∀ v ∈ visits, v.Fits s) ∧
    Balances es (visits.flatMap (·.samples s)) ∧ s.audit.written es =
    visits.filterMap (·.line? s) := by
  induction calls generalizing es outcomes with
  | nil =>
    obtain ⟨rfl, rfl⟩ := course_done.mp h
    exact ⟨[], rfl, rfl, rfl, by simp, .of_quiet (by simp), rfl⟩
  | cons call rest ih =>
    obtain ⟨first, later, outcome, rfl, hfirst, hlater⟩ := course_bind.mp h
    obtain ⟨later, last, others, rfl, hothers, hlast⟩ := course_bind.mp hlater
    obtain ⟨rfl, rfl⟩ := course_done.mp hlast
    rw [append_nil] at haccepts ⊢
    obtain ⟨haccepts, haccepts'⟩ := forall_mem_append.mp haccepts
    obtain ⟨v, hcall, houtcome, hevents, hfits, hbalances, hwritten⟩ :=
      exists_visit henabled hfirst haccepts
    obtain ⟨visits, hcalls, houtcomes, hevents', hfits', hbalances', hwritten'⟩ :=
      ih hothers haccepts'
    refine ⟨v :: visits, ?_, ?_, ?_, ?_, ?_, ?_⟩
    · rw [map_cons, hcall, hcalls]
    · rw [map_cons, houtcome, houtcomes]
    · rw [flatMap_cons, hevents, hevents']
    · exact forall_mem_cons.mpr ⟨hfits, hfits'⟩
    · exact hbalances.append hbalances'
    rw [written_append, hwritten, hwritten', filterMap_cons]
    cases v.line? s <;> rfl

/-! ## The whole session -/

/-- What the calls and the background builds end in. -/
abbrev Answer {J : Type} : Option J → Type
  | none => List (Except Fault Generated)
  | some _ => Except Fault Bool

/-- Calls one after another, and background builds. -/
def session {J : Type} (s : Service) (calls : List (String × Option Binary64)) :
    (i : Option J) → Program (Answer i)
  | none => s.generateAll calls
  | some _ => s.ensureTemplate.run

/-- The books at the end of a session. -/
structure Accounts {J : Type} [DecidableEq J] (s : Service)
    (calls : List (String × Option Binary64))
    (outcomes : List (Except Fault Generated)) (m : Machine) (scene : Scene (Option J) Answer)
    (visits : List Visit) (lines : List (Option J × ByteArray)) : Prop where
  calls_eq : visits.map (fun v => (v.source, v.timeout)) = calls
  outcomes_eq : visits.map (·.outcome) = outcomes
  events_eq : visits.flatMap (·.events) = (scene.tasks none).past
  fits : ∀ v ∈ visits, v.Fits s
  /-- The log has grown by these lines. -/
  text_eq : s.audit.text scene.machine = (lines.map Prod.snd).foldl (· ++ ·) (s.audit.text m)
  /-- Those of calls are in their order, and as the calls have ended. -/
  requests : theirs none lines = visits.filterMap (·.line? s)
  /-- A background build has a line if it has built something. -/
  builds : ∀ j, ((scene.tasks (some j)).past = [] → theirs (some j) lines = []) ∧
    ∀ r, (scene.tasks (some j)).result? = some r →
      ∃ now, theirs (some j) lines = (s.builtEvent? r).toList.map (·.bytes now)
  generates : (scene.metrics.samples "generate").length =
    min 100 (visits.countP fun v => (v.accepted? s).isSome)
  lookups : (scene.metrics.samples "cache_lookup").length =
    min 100 (if s.cacheEnabled then visits.countP fun v => (v.accepted? s).isSome else 0)
  stages : ∀ stage, stage = "build" ∨ stage = "run" →
    (scene.metrics.samples stage).length =
      min 100 (scene.machine.commands.countP (·.stage = stage))
  creations : (scene.metrics.samples "workspace_create").length =
    min 100 (visits.countP (·.created))

theorem count_flatMap_samples {name : String} {p : Visit → Bool}
    (h : ∀ v ∈ visits, (v.samples s).count name = if p v then 1 else 0) :
    (visits.flatMap (·.samples s)).count name = visits.countP p := by
  induction visits with
  | nil => rfl
  | cons v visits ih =>
    obtain ⟨hv, hvisits⟩ := forall_mem_cons.mp h
    rw [flatMap_cons, count_append, hv, ih hvisits, countP_cons]
    omega

theorem count_generate (visits : List Visit) :
    (visits.flatMap (·.samples s)).count "generate" = visits.countP fun v =>
    (v.accepted? s).isSome := by
  refine count_flatMap_samples fun v _ => ?_
  unfold Visit.samples
  cases v.accepted? s with
  | none => simp
  | some request =>
    cases hc : s.cacheEnabled <;> cases v.created <;> simp [lookupSamples, creationSamples, hc]

theorem count_lookup (visits : List Visit) : (visits.flatMap (·.samples s)).count "cache_lookup" =
    if s.cacheEnabled then visits.countP fun v => (v.accepted? s).isSome else 0 := by
  have hcount : (visits.flatMap (·.samples s)).count "cache_lookup" =
      visits.countP fun v => s.cacheEnabled && (v.accepted? s).isSome := by
    refine count_flatMap_samples fun v _ => ?_
    unfold Visit.samples
    cases v.accepted? s with
    | none => simp
    | some request =>
      cases hc : s.cacheEnabled <;> cases v.created <;> simp [lookupSamples, creationSamples, hc]
  rw [hcount]
  cases s.cacheEnabled <;> simp

theorem count_created (hfits : ∀ v ∈ visits, v.Fits s) :
    (visits.flatMap (·.samples s)).count "workspace_create" = visits.countP (·.created) := by
  refine count_flatMap_samples fun v hv => ?_
  unfold Visit.samples Visit.accepted?
  cases hvalid : s.limits.validate v.source v.timeout with
  | error fault =>
    obtain ⟨-, -, hcreated⟩ := (hfits v hv).refused fault hvalid
    simp [Except.toOption, hcreated]
  | ok request =>
    cases hc : s.cacheEnabled <;> cases v.created <;>
      simp [Except.toOption, lookupSamples, creationSamples, hc]

/-- Commands are measured under the names of their stages, nothing else is. -/
theorem count_stage (visits : List Visit) {stage : String} (h : stage = "build" ∨ stage = "run") :
    (visits.flatMap (·.samples s)).count stage = 0 := by
  have hcount : (visits.flatMap (·.samples s)).count stage = visits.countP fun _ => false := by
    refine count_flatMap_samples fun v _ => ?_
    unfold Visit.samples
    cases v.accepted? s with
    | none => simp
    | some request =>
      rcases h with rfl | rfl <;> cases hc : s.cacheEnabled <;> cases v.created <;>
        simp [lookupSamples, creationSamples, hc]
  simp [hcount]

end Service

/-- What counts only what stands under one name is counted there. -/
theorem countP_map_snd {ι β : Type} [DecidableEq ι] {i : ι} {p : β → Bool} {xs : List (ι × β)}
    (h : ∀ x ∈ xs, x.1 ≠ i → p x.2 = false) :
    (xs.map Prod.snd).countP p = (theirs i xs).countP p := by
  induction xs with
  | nil => rfl
  | cons x xs ih =>
    obtain ⟨hx, hxs⟩ := forall_mem_cons.mp h
    obtain ⟨j, b⟩ := x
    have hcons : theirs i ((j, b) :: xs) = theirs i [(j, b)] ++ theirs i xs :=
      theirs_append i [(j, b)] xs
    rw [hcons, map_cons, countP_cons, countP_append, ih hxs]
    by_cases hj : j = i
    · subst hj
      simp only [theirs_singleton_self, countP_singleton]
      omega
    · simp [theirs_singleton_other hj, hx hj]

/-- A task has started no other commands than those of a course. -/
theorem Activity.IsOf.exists_course_commands {p : Program α} {a : Activity α} (h : a.IsOf p) :
    ∃ es value, Course p (a.past ++ es) value ∧
    ∀ command ∈ commandsOf a.past ++ a.command?.toList, command ∈ commandsOf (a.past ++ es) := by
  obtain ⟨past, rest, waiting⟩ := a
  refine ⟨_, _, h _ _ (course_follow (fun _ => Service.freshReply) [] rest),
    fun command hcommand => ?_⟩
  rw [commandsOf_append]
  rcases mem_append.mp hcommand with hpast | hwaiting
  · exact mem_append_left _ hpast
  apply mem_append_right
  unfold command? at hwaiting
  split at hwaiting
  · rename_i command' timeout next heq
    cases heq
    obtain rfl : command = command' := by simpa using hwaiting
    exact mem_cons_self
  · cases hwaiting

theorem stage_of_mem_commandsOf {es : List Event} (h : ∀ e ∈ es, e.call.IsBuilders)
    {command : Command}
    (hcommand : command ∈ commandsOf es) : command.stage = "template build" := by
  obtain ⟨⟨c, r⟩, he, hsome⟩ := mem_filterMap.mp hcommand
  cases c with
  | run command' timeout =>
    cases hsome
    exact h _ he
  | _ => cases hsome

theorem Activity.command?_of_result? {a : Activity α} {value : α} (h : a.result? = some value) :
    a.command? = none := by
  obtain ⟨past, rest, waiting⟩ := a
  cases rest_of_result? h
  rfl

namespace Service

section Session

variable {J : Type} [DecidableEq J] {s : Service} {calls : List (String × Option Binary64)}
  {m : Machine} {scene : Scene (Option J) Answer}

/-- Background builds keep to their own samples and commands. -/
theorem builders_of_history (history : scene.History s.audit m (s.session calls)) (j : J) :
    (∀ e ∈ (scene.tasks (some j)).past, e.call.IsBuilders) ∧
    ∀ command ∈ theirs (some j) history.started, command.stage = "template build" := by
  obtain ⟨es, r, hes, hcommands⟩ := (history.isOf (some j)).exists_course_commands
  have hall := (reports_ensureTemplate hes).2
  refine ⟨fun e he => hall e (mem_append_left _ he), fun command hcommand => ?_⟩
  rw [history.started_eq] at hcommand
  exact stage_of_mem_commandsOf hall (hcommands command hcommand)

/-- All other samples are taken by the calls. -/
theorem length_samples_of_history (history : scene.History s.audit m (s.session calls))
    (hmetrics : m.metrics = .ofCapacity Metrics.defaultCapacity) {name : String}
    (hname : name ≠ "template_ensure") : (scene.metrics.samples name).length =
    min 100 ((scene.tasks none).past.countP (records name)) := by
  have hcount : (history.events.map Prod.snd).countP (records name) =
      (scene.tasks none).past.countP (records name) := by
    rw [history.past_eq none]
    refine countP_map_snd fun x hx hne => ?_
    obtain ⟨_ | j, e⟩ := x
    · exact absurd rfl hne
    have he := (builders_of_history history j).1 e (by rw [history.past_eq, mem_theirs]; exact hx)
    obtain ⟨c, r⟩ := e
    cases c with
    | record operation d =>
      obtain rfl : operation = "template_ensure" := he
      simpa [records] using Ne.symm hname
    | _ => rfl
  have hempty : m.metrics.samples name = [] := by rw [hmetrics]; rfl
  have hcapacity : m.metrics.capacity = 100 := by rw [hmetrics]; rfl
  rw [history.metrics_eq, Metrics.length_samples_foldl (by omega) (by simp [hempty]), hcount,
    hempty, hcapacity]
  simp

/-- All commands of the two stages are started by the calls. -/
theorem countP_commands_of_history (history : scene.History s.audit m (s.session calls))
    (hcalls : m.calls = []) (hended : (scene.tasks none).result? = some outcomes) {stage : String}
    (hstage : stage ≠ "template build") : scene.machine.commands.countP (·.stage = stage) =
    (commandsOf (scene.tasks none).past).countP (·.stage = stage) := by
  have hinitial : m.commands = [] := by simp [Machine.commands, hcalls]
  have hstarted : theirs none history.started = commandsOf (scene.tasks none).past := by
    rw [history.started_eq, Activity.command?_of_result? hended]
    simp
  rw [history.commands_eq, hinitial, nil_append, ← hstarted]
  refine countP_map_snd fun x hx hne => ?_
  obtain ⟨_ | j, command⟩ := x
  · exact absurd rfl hne
  have hbuild := (builders_of_history history j).2 command (mem_theirs.mpr hx)
  simpa [hbuild] using Ne.symm hstage

end Session

/-- At the end of a session the books account for it. -/
theorem books_account_for_session {J : Type} [DecidableEq J] (s : Service)
    (henabled : s.audit.enabled = true) (calls : List (String × Option Binary64)) (m : Machine)
    (hmetrics : m.metrics = .ofCapacity Metrics.defaultCapacity) (hcalls : m.calls = [])
    {scene : Scene (Option J) Answer}
    (h : Scene.Runs s.audit.rules (Scene.start m (s.session calls)) scene)
    {outcomes : List (Except Fault Generated)}
    (hended : (scene.tasks none).result? = some outcomes) :
    ∃ visits lines, s.Accounts calls outcomes m scene visits lines := by
  obtain ⟨history⟩ := h.history
  have hcourse : Course (s.generateAll calls) (scene.tasks none).past outcomes :=
    (history.isOf none).course hended
  obtain ⟨visits, hcalls_eq, houtcomes, hevents, hfits, hbalances, hwritten⟩ :=
    exists_visits henabled hcourse (history.accepts_past none)
  -- under a name that is no stage, only what is listed besides the commands is measured
  have hothers (name : String) (hbuild : name ≠ "build") (hrun : name ≠ "run")
      (hname : name ≠ "template_ensure") : (scene.metrics.samples name).length =
        min 100 ((visits.flatMap (·.samples s)).count name) := by
    have hzero : (commandsOf (scene.tasks none).past).countP (·.stage = name) = 0 := by
      apply List.countP_eq_zero.mpr
      intro command hcommand
      rcases hbalances.stages command hcommand with hstage | hstage
      · simpa [hstage] using Ne.symm hbuild
      · simpa [hstage] using Ne.symm hrun
    rw [length_samples_of_history history hmetrics hname, hbalances.samples_eq, hzero, Nat.zero_add]
  refine ⟨visits, history.lines, hcalls_eq, houtcomes, hevents, hfits, history.text_eq_lines, ?_,
    ?_, ?_, ?_, ?_, ?_⟩
  · rw [history.theirs_lines, hwritten]
  · intro j
    rw [history.theirs_lines]
    refine ⟨fun hpast => by rw [hpast]; rfl, fun r hr => ?_⟩
    have hreports := (reports_ensureTemplate ((history.isOf (some j)).course hr)).1
    exact hreports.written_eq henabled isText_builtEvent? (history.accepts_past (some j))
  · rw [hothers "generate" (by decide) (by decide) (by decide), count_generate]
  · rw [hothers "cache_lookup" (by decide) (by decide) (by decide), count_lookup]
  · intro stage hstage
    have hname : stage ≠ "template_ensure" ∧ stage ≠ "template build" := by
      rcases hstage with rfl | rfl <;> decide
    rw [length_samples_of_history history hmetrics hname.1, hbalances.samples_eq,
      count_stage visits hstage, countP_commands_of_history history hcalls hended hname.2,
      Nat.add_zero]
  · rw [hothers "workspace_create" (by decide) (by decide) (by decide), count_created hfits]

/-- A service with a log, a cache and a template. -/
def booked : Service :=
  { tidy with
    audit := ⟨true, "/a"⟩
    template := { (default : Template) with
      root := "/t", lockPath := "/l", manifestFile := "m", sourceFile := "n" } }

/-- Every command prints the same, and every lock is free. -/
def obliging {ι : Type} (_ : ι) (m : Machine) : (c : Call) → Option (Machine × c.Reply)
  | .run .. => some (m, .ok ⟨0, "=\nout".toUTF8, .empty⟩)
  | .lock .. => some (m, .acquired)
  | _ => none

theorem spares_obliging {ι : Type} (log : AuditLog) (i : ι) (m : Machine) (c : Call) (r : c.Reply)
    (m' : Machine) (h : obliging i m c = some (m', r)) : log.Spares m m' := by
  unfold obliging at h
  split at h
  · cases h
    exact ⟨rfl, rfl, rfl⟩
  · cases h
    exact ⟨rfl, rfl, rfl⟩
  · cases h

/-- A refused source, one that is built and run, and the same again, which the cache answers, while
the template is built in the background. -/
theorem books_account_for_session_three : ∃ (scene : Scene (Option Unit) Answer)
    (outcomes : List (Except Fault Generated)) (visits : List Visit)
    (lines : List (Option Unit × ByteArray)),
    (scene.tasks none).result? = some outcomes ∧ outcomes.map (·.toOption.map (·.cached)) =
      [none, some false, some true] ∧
    (scene.tasks (some ())).result?.map Except.toOption = some (some true) ∧
    booked.Accounts [("", none), ("x", none), ("x", none)] outcomes .bare scene visits lines := by
  have hplay : ((Scene.start .bare (booked.session [("", none), ("x", none), ("x", none)])).play
      booked.audit.allows obliging (List.replicate 26 (some ()) ++ List.replicate 52 none)).map
        (fun s => ((s.tasks none).result?.map (List.map (·.toOption.map (·.cached))),
          (s.tasks (some ())).result?.map Except.toOption)) =
      some (some [none, some false, some true], some (some true)) := by
    decide +kernel
  obtain ⟨scene, hscene, hstate⟩ := Option.map_eq_some_iff.mp hplay
  obtain ⟨hfront, hjob⟩ := Prod.mk.inj hstate
  obtain ⟨outcomes, houtcomes, hcached⟩ := Option.map_eq_some_iff.mp hfront
  have hruns := AuditLog.runs_of_play (spares_obliging booked.audit) hscene
  obtain ⟨visits, lines, haccounts⟩ :=
    books_account_for_session booked rfl _ .bare rfl rfl hruns houtcomes
  exact ⟨scene, outcomes, visits, lines, houtcomes, hcached, hjob, haccounts⟩

end Service

end Foundry
