import Foundry.Proofs.Cache.Conduct
import Foundry.Proofs.Service.Delay
import Foundry.Proofs.Service.Pipeline

/-!
# Requests without the cache

A request that the cache does not answer goes the way it would have gone with the cache
switched off, whatever its files hold and whichever of its calls fail. The two runs meet
surroundings that ignore the entry file: when it has been read or removed, everything
else is answered as before, only later. So the argument is that of two courses a fixed
delay apart.

## Implementation notes

The delay is not assumed to be zero. Commands get what is left of a span that starts
after the lookup, so a delay does not show in them; it shows in the elapsed time of the
audit trail, and there only.
-/

namespace Foundry

open Program List

/-! ## Footprints of the parts -/

/-- Calls that only look at the time, measure or report. -/
def Call.IsIdle : Call → Prop
  | .clock | .record .. | .warn .. => True
  | _ => False

def Call.IsAppend : Call → Prop
  | .appendFile .. => True
  | _ => False

namespace Service

variable {s : Service} {request : Request} {es : List Event} {c : Call}

/-- The calls between the lookup and the end of a request. -/
def Works : Call → Prop
  | .clock | .isFile _ | .startJob | .awaitJob .. | .record .. | .run .. => True
  | c => Workspaces.Makes c

theorem works_of_makes (c : Call) (h : Workspaces.Makes c) : Works c := by
  cases c with
  | clock | isFile | startJob | awaitJob | record | run => trivial
  | _ => exact h

theorem Works.not_isAppend (h : Works c) : ¬ c.IsAppend := by
  intro hc
  cases c with
  | appendFile => exact h
  | _ => exact hc

theorem works_buildAndRun (s : Service) (request : Request) :
    (s.buildAndRun request).run.Only Works := by
  rw [buildAndRun]
  apply Action.only_lift_bind (only_ask (c := .clock) trivial)
  intro begun
  apply Action.only_bind (only_dependencyRef (fun _ => trivial) trivial (fun _ _ => trivial)
    fun _ _ => trivial)
  intro dependency
  exact only_work works_of_makes trivial (fun _ _ => trivial) fun _ _ => trivial

/-- The calls of a lookup. -/
def LooksUp (path : String) (c : Call) : Prop := Cache.Consults path c ∨ c.IsIdle

theorem LooksUp.kind_ne {path : String} (h : LooksUp path c) :
    c.kind ≠ .command ∧ c.kind ≠ .job := by
  rcases h with h | h
  · simp [h.isPlain]
  cases c with
  | clock | record | warn => simp [Call.kind]
  | _ => exact h.elim

theorem LooksUp.not_isAppend {path : String} (h : LooksUp path c) : ¬ c.IsAppend := by
  intro hc
  cases c with
  | appendFile => exact h.elim id id
  | _ => exact hc

theorem looksUp_lookup (s : Service) (source : String) :
    (s.lookup source).Only (LooksUp (s.cache.entryPath (s.cache.hash (Text.trim source)))) := by
  unfold lookup
  split
  · apply only_timed _ (.inr trivial) fun _ => .inr trivial
    exact ((s.cache.only_get source).mono fun _ => .inl).bind fun hit =>
      only_settle hit _ fun _ _ => .inr trivial
  · exact only_done _

end Service

/-! ## Hits -/

/-- The file under the hash of a source has been read, and holds a fresh entry for that source. -/
def Cache.Hits (c : Cache) (source output : String) (es : List Event) : Prop :=
  ∃ bytes content entry now,
    (⟨.readFile (c.entryPath (c.hash source)), .ok bytes⟩ : Event) ∈ es ∧
    String.fromUTF8? bytes = some content ∧ Entry.parse content.toUTF8.toList = .ok entry ∧
    entry.hash = c.hash source ∧ entry.source = source ∧
    (⟨.today, now⟩ : Event) ∈ es ∧ now.since entry.createdAt ≤ c.maxAge ∧ entry.output = output

theorem Program.course_readTextFile {path : String} {es : List Event} {r : Except Cause String}
    (h : Course (readTextFile path) es r) : ∃ reply, es = [⟨.readFile path, reply⟩] ∧
    ∀ content, r = .ok content → ∃ bytes, reply = .ok bytes ∧ String.fromUTF8? bytes =
    some content := by
  obtain ⟨reply, rest, rfl, hrest⟩ := course_ask_bind.mp h
  cases reply with
  | error e =>
    obtain ⟨rfl, rfl⟩ := course_done.mp hrest
    exact ⟨_, rfl, by simp⟩
  | ok bytes =>
    dsimp only at hrest
    split at hrest
    · rename_i text htext
      obtain ⟨rfl, rfl⟩ := course_done.mp hrest
      exact ⟨_, rfl, by simpa using htext⟩
    · obtain ⟨rfl, rfl⟩ := course_done.mp hrest
      exact ⟨_, rfl, by simp⟩

/-- What is found in the cache was read there, and judged by the time of the day. -/
theorem Cache.hits_of_course {c : Cache} {source output : String} {warning : Option String}
    {es : List Event} (h : Course (c.get source) es ⟨some output, warning⟩) :
    c.Hits (Text.trim source) output es := by
  have hmiss {removal : Program (Option String)} {f : Option String → Option String}
      {es : List Event}
      (h : Course (removal >>= fun r => pure (⟨none, f r⟩ : Advised (Option String))) es
        ⟨some output, warning⟩) : False := by
    obtain ⟨_, _, _, -, -, hend⟩ := course_bind.mp h
    obtain ⟨-, hvalue⟩ := course_done.mp hend
    cases hvalue
  obtain ⟨read, rest, r, rfl, hread, hrest⟩ := course_bind.mp h
  obtain ⟨reply, rfl, hreply⟩ := course_readTextFile hread
  cases r with
  | error e =>
    dsimp only at hrest
    split at hrest
    all_goals
      obtain ⟨-, hvalue⟩ := course_done.mp hrest
      cases hvalue
  | ok content =>
    obtain ⟨bytes, rfl, htext⟩ := hreply content rfl
    cases hparse : Entry.parse content.toUTF8.toList with
    | error reason =>
      simp only [hparse] at hrest
      exact (hmiss hrest).elim
    | ok entry =>
      simp only [hparse] at hrest
      split at hrest
      · exact (hmiss hrest).elim
      rename_i hfor
      obtain ⟨now, judged, rfl, hjudged⟩ := course_ask_bind.mp hrest
      split at hjudged
      · exact (hmiss hjudged).elim
      rename_i hfresh
      obtain ⟨rfl, hvalue⟩ := course_done.mp hjudged
      cases hvalue
      simp only [Entry.isFor, Bool.not_eq_true', Bool.not_eq_false, Bool.and_eq_true,
        beq_iff_eq] at hfor
      simp only [Entry.isStale, decide_eq_true_eq, Int.not_lt] at hfresh
      exact ⟨bytes, content, entry, now, by simp, htext, hparse, hfor.1, hfor.2, by simp,
        hfresh, rfl⟩

/-! ## The audit trail -/

/-- The event with another elapsed time. -/
def AuditEvent.lasting (elapsed : Duration) : AuditEvent → AuditEvent
  | .generationCompleted hash _ => .generationCompleted hash elapsed.toSeconds
  | .generationFailed hash error _ => .generationFailed hash error elapsed.toSeconds
  | e => e

/-- What events leave in the audit trail: nothing, or one record at their end. -/
def AuditLog.Reports (log : AuditLog) (es : List Event) : Option AuditEvent → Prop
  | none => ∀ e ∈ es, ¬ e.call.IsAppend
  | some event => ∃ before told, es = before ++ told ∧ (∀ e ∈ before, ¬ e.call.IsAppend) ∧
      Course (log.record event) told ()

namespace Service

variable {s : Service} {request : Request} {es : List Event}

/-- What is recorded of a request that the cache has not answered. -/
def auditEvent (s : Service) (request : Request) (elapsed : Duration) :
    Except Fault String → AuditEvent
  | .ok _ => .generationCompleted (s.cache.hash request.source) elapsed.toSeconds
  | .error fault => .generationFailed (s.cache.hash request.source) fault.message elapsed.toSeconds

theorem Closes.reports {elapsed : Duration} {result : Except Fault String}
    {outcome : Except Fault Generated} (h : s.Closes request elapsed result es outcome) :
    s.audit.Reports es (s.auditEvent request elapsed result) := by
  cases h with
  | @succeeds output stored told keeps tells =>
    refine ⟨stored, told, rfl, ?_, tells⟩
    unfold Stores at keeps
    split at keeps
    · obtain ⟨events, advised, hput, rfl⟩ := keeps
      have hsettled :=
        (course_settle.mpr ⟨rfl, rfl⟩).only (Workspaces.makes_settle advised "cache store")
      rintro ⟨c, r⟩ he
      cases c with
      | appendFile path bytes =>
        rcases mem_append.mp he with he | he
        · exact (hput.only (s.cache.handles_put _ _) _ he).elim
        · exact (hsettled _ he).elim
      | _ => exact id
    · simp [keeps]
  | @fails fault told tells =>
    exact ⟨[⟨s.failureWarning request fault, ()⟩], told,
      rfl, by simp [failureWarning, Call.IsAppend], tells⟩

end Service

/-- More events that append nothing may come before. -/
theorem AuditLog.Reports.append {log : AuditLog} {event : Option AuditEvent} {es es' : List Event}
    (h : log.Reports es' event) (hes : ∀ e ∈ es, ¬ e.call.IsAppend) :
    log.Reports (es ++ es') event := by
  cases event with
  | none => exact fun e he => (mem_append.mp he).elim (hes e) (h e)
  | some event =>
    obtain ⟨before, told, rfl, hbefore, htold⟩ := h
    exact ⟨es ++ before, told, (append_assoc ..).symm,
      fun e he => (mem_append.mp he).elim (hes e) (hbefore e), htold⟩

/-! ## Two runs -/

/-- Elsewhere a file does not matter to the surroundings: when it has been read or removed and time
has passed, calls that are about other things are answered as they would have been, only later. -/
def Program.Ignores (world : World) (path : String) (elsewhere : Call → Prop) : Prop :=
  ∀ past aside, (∀ e ∈ aside, Service.LooksUp path e.call) → Answers world past aside →
    ∃ delay, ∀ es, (∀ e ∈ es, elsewhere e.call) → Answers world past es →
      Answers world (past ++ aside) (es.map (Event.later delay))

/-- What was done about background jobs. -/
def jobsOf (es : List Event) : List Event := es.filter fun e => e.call.kind = .job

theorem jobsOf_map_later (delay : Nat) (es : List Event) :
    jobsOf (es.map (Event.later delay)) = (jobsOf es).map (Event.later delay) := by
  simp only [jobsOf, filter_map, Function.comp_def, Event.kind_later]

/-- A delay does not show in the commands that are run. -/
theorem runsOf_map_later (delay : Nat) (es : List Event) :
    runsOf (es.map (Event.later delay)) = runsOf es := by
  have hid : ∀ e ∈ runsOf es, e.later delay = e := by
    intro e he
    have hkind : e.call.kind = .command := by simpa using (mem_filter.mp he).2
    apply Event.later_of_not_isTimed
    rcases e with ⟨c, r⟩
    cases c with
    | clock | awaitJob => cases hkind
    | _ => exact id
  calc runsOf (es.map (Event.later delay))
      = (runsOf es).map (Event.later delay) := by
        simp only [runsOf, filter_map, Function.comp_def, Event.kind_later]
    _ = runsOf es := by rw [map_congr_left hid, map_id']

namespace Service

variable {s : Service} {request : Request} {world : World} {elsewhere : Call → Prop}
  {own : List Event} {outcome : Except Fault Generated}

/-- The service with its cache switched off. -/
def withoutCache (s : Service) : Service := { s with cacheEnabled := false }

/-- The course of a request that the cache has not answered, in its surroundings. -/
structure Miss (s : Service) (request : Request) (world : World) (looked : List Event)
    (outcome : Except Fault Generated) where
  work : List Event
  result : Except Fault String
  time : Nat
  closing : List Event
  looks : Course (s.lookup request.source) looked none
  works : Course (s.buildAndRun request).run work result
  closes : s.Closes request ⟨time - world [] .clock⟩ result closing outcome
  answers_looked : Answers world [⟨.clock, world [] .clock⟩] looked
  answers_work : Answers world (⟨.clock, world [] .clock⟩ :: looked) (work ++ [⟨.clock, time⟩])

/-- All its events. -/
def Miss.events {looked : List Event} (m : s.Miss request world looked outcome) : List Event :=
  ⟨.clock, world [] .clock⟩ :: looked ++ m.work ++
    ⟨.clock, m.time⟩ :: ⟨.record "generate" ⟨m.time - world [] .clock⟩, ()⟩ :: m.closing

theorem miss_of_follow (h : (s.generateRequest request).run.follow world [] = (own, outcome))
    (hmiss : ∀ output, outcome ≠ .ok ⟨output, true⟩) :
    ∃ looked, ∃ m : s.Miss request world looked outcome, m.events = own := by
  have hcourse := course_follow world [] (s.generateRequest request).run
  have hanswers := answers_follow world [] (s.generateRequest request).run
  rw [h] at hcourse hanswers
  obtain ⟨start, looked, found, rest, rfl, hlooked, hcase⟩ := course_generateRequest hcourse
  rcases hcase with ⟨output, t, -, rfl, -⟩ | ⟨rfl, work, result, t, closing, hwork, rfl, hclose⟩
  · exact absurd rfl (hmiss output)
  obtain ⟨hstart, hanswers⟩ := hanswers
  replace hstart : start = world [] .clock := hstart
  subst hstart
  obtain ⟨hlook, hrest⟩ := answers_append.mp hanswers
  obtain ⟨hwork', ht, -⟩ := answers_append.mp hrest
  exact ⟨looked, ⟨work, result, t, closing, hlooked, hwork, hclose, hlook,
    answers_append.mpr ⟨hwork', ht, trivial⟩⟩, by simp [Miss.events]⟩

namespace Miss

variable {looked : List Event}

/-- Commands are run and jobs are started only between the lookup and the end. -/
theorem filter_events (m : s.Miss request world looked outcome) {kind : Call.Kind}
    (h : kind = .command ∨ kind = .job) :
    m.events.filter (fun e => e.call.kind = kind) = m.work.filter fun e => e.call.kind = kind := by
  have hlooked : looked.filter (fun e => e.call.kind = kind) = [] := by
    apply filter_eq_nil_iff.mpr
    intro e he
    have hne := (m.looks.only (s.looksUp_lookup _) e he).kind_ne
    rcases h with rfl | rfl <;> simp [hne]
  have hclosing : m.closing.filter (fun e => e.call.kind = kind) = [] := by
    apply filter_eq_nil_iff.mpr
    intro e he
    rcases m.closes.kind e he with hkind | hkind <;> rcases h with rfl | rfl <;> simp [hkind]
  have hclock : Call.kind .clock ≠ kind := by rcases h with rfl | rfl <;> simp [Call.kind]
  have hrecord (d : Duration) : Call.kind (.record "generate" d) ≠ kind := by
    rcases h with rfl | rfl <;> simp [Call.kind]
  simp [events, hlooked, hclosing, hclock, hrecord]

theorem reports (m : s.Miss request world looked outcome) :
    s.audit.Reports m.events (s.auditEvent request ⟨m.time - world [] .clock⟩ m.result) := by
  rw [events, append_cons, append_cons]
  apply m.closes.reports.append
  intro e he
  simp only [mem_append, mem_cons, not_mem_nil, or_false] at he
  rcases he with (((rfl | he) | he) | rfl) | rfl
  · exact id
  · exact (m.looks.only (s.looksUp_lookup _) e he).not_isAppend
  · exact (m.works.only (s.works_buildAndRun request) e he).not_isAppend
  · exact id
  · exact id

/-- What one run does after its lookup, the other does without it and earlier. -/
theorem later {outcome' : Except Fault Generated}
    (m : s.Miss request world looked outcome) (m' : s.withoutCache.Miss request world [] outcome')
    (hworks : (s.buildAndRun request).run.Only elsewhere)
    (hignores : Ignores world (s.cache.entryPath (s.cache.hash (Text.trim request.source)))
    elsewhere) :
    ∃ delay, m.work = m'.work.map (Event.later delay) ∧ m.result = m'.result ∧
    m.time = m'.time + delay := by
  have hwork' : Course (s.buildAndRun request).run m'.work m'.result := m'.works
  -- the first call of the work reads the clock
  have hclock : elsewhere .clock := (obeys_call.mp hworks).1
  obtain ⟨delay, hdelay⟩ := hignores _ looked (m.looks.only (s.looksUp_lookup _)) m.answers_looked
  have hlater := hdelay (m'.work ++ [⟨.clock, m'.time⟩]) (by
    intro e he
    rcases mem_append.mp he with he | he
    · exact hwork'.only hworks e he
    obtain rfl := mem_singleton.mp he
    exact hclock) m'.answers_work
  rw [map_append, answers_append] at hlater
  have hanswers := answers_append.mp m.answers_work
  have hsame := (follow_eq (course_later (later_buildAndRun s request) hwork') hlater.1).symm.trans
    (follow_eq m.works hanswers.1)
  obtain ⟨hwork, hresult⟩ := Prod.mk.inj hsame
  refine ⟨delay, hwork.symm, hresult.symm, ?_⟩
  have htime : m.time = world (⟨.clock, world [] .clock⟩ :: looked ++ m.work) .clock := hanswers.2.1
  have htime' : m'.time + delay = world (⟨.clock, world [] .clock⟩ :: looked ++
    m'.work.map (Event.later delay)) .clock := hlater.2.1
  rw [htime, htime', hwork]

end Miss

/-- A hit takes a cache; it runs nothing and reports nothing. -/
theorem hits_of_cached {output : String}
    (h : Course (s.generateRequest request).run own (.ok ⟨output, true⟩)) :
    s.cacheEnabled = true ∧ runsOf own = [] ∧ s.audit.Reports own none ∧
    s.cache.Hits (Text.trim request.source) output own := by
  obtain ⟨start, looked, found, rest, rfl, hlooked, hcase⟩ := course_generateRequest h
  rcases hcase with ⟨output', t, rfl, houtcome, rfl⟩ | ⟨-, _, _, _, _, -, -, hclose⟩
  · obtain rfl : output = output' := by simpa using houtcome
    have hlooks := hlooked.only (s.looksUp_lookup request.source)
    have hcalls : ∀ e ∈ (⟨.clock, start⟩ :: (looked ++ [⟨.clock, t⟩,
        ⟨.record "generate" ⟨t - start⟩, ()⟩]) : List Event), e.call.kind ≠ .command ∧
        ¬ e.call.IsAppend := by
      intro e he
      simp only [mem_append, mem_cons, not_mem_nil, or_false] at he
      rcases he with rfl | he | rfl | rfl
      · simp [Call.kind, Call.IsAppend]
      · exact ⟨(hlooks e he).kind_ne.1, (hlooks e he).not_isAppend⟩
      · simp [Call.kind, Call.IsAppend]
      · simp [Call.kind, Call.IsAppend]
    rcases course_lookup hlooked with ⟨-, -, hnone⟩ |
      ⟨henabled, t, t', consulted, ⟨value, warning⟩, hget, rfl, rfl⟩
    · cases hnone
    obtain ⟨bytes, content, entry, now, hread, htext, hparse, hhash, hsource, hnow, hage, hout⟩ :=
      Cache.hits_of_course hget
    exact ⟨henabled, runsOf_eq_nil fun e he => (hcalls e he).1, fun e he => (hcalls e he).2,
      bytes, content, entry, now, by simp [hread], htext, hparse, hhash, hsource, by simp [hnow],
      hage, hout⟩
  · cases hclose

theorem lasting_auditEvent (elapsed elapsed' : Duration) (result : Except Fault String) :
    (s.auditEvent request elapsed' result).lasting elapsed = s.auditEvent request elapsed
    result := by
  cases result <;> rfl

/-- Where the entry file of a source does not matter to the work on it, a request that the cache
does not answer comes to the same as with the cache switched off: it runs the same commands, ends in
the same way and reports the same event, but for the time that the lookup took. A request is
answered by the cache only if that file holds a fresh entry for its source. -/
theorem outcome_without_cache (source : String) (timeout : Option Binary64) {bare : List Event}
    {outcome' : Except Fault Generated}
    (hworks : ∀ request, (s.buildAndRun request).run.Only elsewhere)
    (hignores : Ignores world (s.cache.entryPath (s.cache.hash (Text.trim source))) elsewhere)
    (hown : (s.generate source timeout).run.follow world [] = (own, outcome))
    (hbare : (s.withoutCache.generate source timeout).run.follow world [] = (bare, outcome')) :
    ((∀ output, outcome ≠ .ok ⟨output, true⟩) →
      outcome = outcome' ∧ runsOf own = runsOf bare ∧
      ∃ delay, jobsOf own = (jobsOf bare).map (Event.later delay) ∧
        ∃ (event : Option AuditEvent) (elapsed elapsed' : Duration),
          s.audit.Reports own (event.map (AuditEvent.lasting elapsed)) ∧
          s.audit.Reports bare (event.map (AuditEvent.lasting elapsed')) ∧
          elapsed'.nanos ≤ elapsed.nanos ∧ elapsed.nanos ≤ elapsed'.nanos + delay) ∧
    ∀ output, outcome = .ok ⟨output, true⟩ →
      runsOf own = [] ∧ s.audit.Reports own none ∧ s.cache.Hits (Text.trim source) output own := by
  have hvalidate : s.withoutCache.limits.validate source timeout =
      s.limits.validate source timeout := rfl
  unfold generate at hown hbare
  rw [hvalidate] at hbare
  cases hrequest : s.limits.validate source timeout with
  | error fault =>
    rw [hrequest] at hown hbare
    obtain ⟨rfl, rfl⟩ := Prod.mk.inj hown
    obtain ⟨rfl, rfl⟩ := Prod.mk.inj hbare
    refine ⟨fun _ => ⟨rfl, rfl, 0, rfl, none, ⟨0⟩, ⟨0⟩, ?_, ?_, Nat.le_refl 0, Nat.le_refl 0⟩, ?_⟩
    · simp [AuditLog.Reports]
    · simp [AuditLog.Reports]
    intro output h
    cases h
  | ok request =>
    rw [hrequest] at hown hbare
    have hsource : Text.trim request.source = Text.trim source := by
      rw [Conduct.source_of_validate hrequest, Text.trim_trim]
    rw [← hsource] at hignores ⊢
    constructor
    · intro hmiss
      obtain ⟨looked, m, rfl⟩ := miss_of_follow hown hmiss
      have hbareMiss : ∀ output, outcome' ≠ .ok ⟨output, true⟩ := by
        rintro output rfl
        have hcourse := course_follow world [] (s.withoutCache.generateRequest request).run
        rw [hbare] at hcourse
        cases (hits_of_cached hcourse).1
      obtain ⟨looked', m', rfl⟩ := miss_of_follow hbare hbareMiss
      obtain rfl : looked' = [] := by
        rcases course_lookup m'.looks with ⟨-, rfl, -⟩ | ⟨henabled, -⟩
        · rfl
        · cases henabled
      obtain ⟨delay, hwork, hresult, htime⟩ := m.later m' (hworks request) hignores
      have hreports := m.reports
      have hreports' : s.audit.Reports m'.events
        (s.auditEvent request ⟨m'.time - world [] .clock⟩ m'.result) := m'.reports
      rw [← hresult] at hreports'
      refine ⟨?_, ?_, delay, ?_, some (s.auditEvent request ⟨0⟩ m.result),
        ⟨m.time - world [] .clock⟩, ⟨m'.time - world [] .clock⟩, ?_, ?_, ?_, ?_⟩
      · rw [m.closes.outcome_eq, m'.closes.outcome_eq, hresult]
      · calc runsOf m.events
            = runsOf m.work := m.filter_events (Or.inl rfl)
          _ = runsOf m'.work := by rw [hwork, runsOf_map_later]
          _ = runsOf m'.events := (m'.filter_events (Or.inl rfl)).symm
      · calc jobsOf m.events
            = jobsOf m.work := m.filter_events (Or.inr rfl)
          _ = (jobsOf m'.work).map (Event.later delay) := by rw [hwork, jobsOf_map_later]
          _ = (jobsOf m'.events).map (Event.later delay) :=
            congrArg _ (m'.filter_events (Or.inr rfl)).symm
      · simpa only [Option.map_some, lasting_auditEvent] using hreports
      · simpa only [Option.map_some, lasting_auditEvent] using hreports'
      · dsimp only
        omega
      dsimp only
      omega
    · rintro output rfl
      have hcourse := course_follow world [] (s.generateRequest request).run
      rw [hown] at hcourse
      exact (hits_of_cached hcourse).2

/-- Surroundings where entries are unreadable until they are removed, and nothing can be put into
their place. -/
def ailing : World
  | past, .readFile _ =>
    if past.any fun e => e.call matches .removeFile _ then .error .notFound
    else .ok "no entry".toUTF8
  | _, .rename .. => .error .accessDenied
  | _, c => freshReply c

theorem ignores_ailing (path : String) : Ignores ailing path Works := by
  have hsteady {c : Call} (h : Works c) (past : List Event) : ailing past c = freshReply c := by
    cases c with
    | readFile | rename => exact h.elim
    | _ => rfl
  rintro past aside - -
  refine ⟨0, fun es hes hanswers => ?_⟩
  generalize past ++ aside = past'
  induction es generalizing past past' with
  | nil => trivial
  | cons e es ih =>
    obtain ⟨he, hes⟩ := forall_mem_cons.mp hes
    have hlater : e.later 0 = e := by
      rcases e with ⟨c, r⟩
      cases c <;> rfl
    rw [map_cons, hlater]
    refine ⟨?_, ih _ hes hanswers.2 _⟩
    rw [hanswers.1, hsteady he, hsteady he]

theorem outcome_without_cache_ailing : ∃ own bare,
    (plainService.generate "x" none).run.follow ailing [] = (own, .ok ⟨"done", false⟩) ∧
    (plainService.withoutCache.generate "x" none).run.follow ailing [] =
    (bare, .ok ⟨"done", false⟩) ∧
    (own.any fun e => e.call matches .removeFile _) = true ∧ runsOf own = runsOf bare := by
  have hown : ((plainService.generate "x" none).run.follow ailing []).2 = .ok ⟨"done", false⟩ :=
    Except.eq_ok_of_toOption (by decide +kernel)
  have hmiss : ∀ output, ((plainService.generate "x" none).run.follow ailing []).2 ≠
      .ok ⟨output, true⟩ := by simp [hown]
  obtain ⟨houtcome, hruns, -⟩ := (outcome_without_cache "x" none (works_buildAndRun plainService)
    (ignores_ailing _) rfl rfl).1 hmiss
  refine ⟨_, _, Prod.ext rfl hown, Prod.ext rfl (houtcome.symm.trans hown), ?_, hruns⟩
  decide +kernel

end Service

end Foundry
