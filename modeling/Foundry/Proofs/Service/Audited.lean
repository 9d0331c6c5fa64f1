import Foundry.Machine.Schedule
import Foundry.Proofs.Cache.Soundness
import Foundry.Proofs.Service.Ledger

/-!
# Requests on record

Any number of requests and of background builds share a machine and a log that can be
written. A request whose commands were started and that has come to its end has exactly one
line in the log, of the kind of its result and with the hash of its source. Until then it
has at most one, and the last statement shows that it may stay without: the line is written
by the request itself, so one that is abandoned during its build leaves none.
-/

namespace Foundry

open Program

namespace Service

/-- What requests and builds end in. -/
abbrev Ending {R J : Type} : R ⊕ J → Type
  | .inl _ => Except Fault Generated
  | .inr _ => Except Fault Bool

/-- Requests and background builds, all of one service. -/
def workload {R J : Type} (s : Service) (calls : R → String × Option Binary64) :
    (i : R ⊕ J) → Program (Ending i)
  | .inl i => (s.generate (calls i).1 (calls i).2).run
  | .inr _ => s.ensureTemplate.run

variable {s : Service} {request : Request} {es : List Event}

/-- A source that is refused is not even looked at. -/
theorem course_generate {source : String} {timeout : Option Binary64}
    {outcome : Except Fault Generated} (h : Course (s.generate source timeout).run es outcome) :
    (∃ fault, s.limits.validate source timeout = .error fault ∧ es = [] ∧ outcome = .error fault) ∨
    ∃ request, s.limits.validate source timeout = .ok request ∧
    Course (s.generateRequest request).run es outcome := by
  unfold generate at h
  split at h
  · rename_i fault hfault
    exact .inl ⟨fault, hfault, Action.course_throw.mp h⟩
  rename_i request hrequest
  exact .inr ⟨request, hrequest, h⟩

/-- The commands of a course are its events that run one. -/
theorem commandsOf_eq_nil (h : runsOf es = []) : commandsOf es = [] := by
  apply List.filterMap_eq_nil_iff.mpr
  rintro ⟨c, r⟩ he
  cases c with
  | run command timeout =>
    have hmem : (⟨.run command timeout, r⟩ : Event) ∈ runsOf es :=
      List.mem_filter.mpr ⟨he, by simp [Call.kind]⟩
    simp [h] at hmem
  | _ => rfl

/-- What a request has written into the log. -/
structure OnRecord (s : Service) (call : String × Option Binary64)
    (a : Activity (Except Fault Generated)) (lines : List ByteArray) : Prop where
  /-- With a command started, the end is on record: once, and as it was. -/
  built : ∀ outcome, a.result? = some outcome → commandsOf a.past ≠ [] →
    ∃ request elapsed event now, s.limits.validate call.1 call.2 = .ok request ∧
      s.eventOf? request elapsed outcome = some event ∧ lines = [event.bytes now]
  /-- Of those that have ended, only refused ones and hits are not on record. -/
  silent : ∀ outcome, a.result? = some outcome → (lines = [] ↔
    (∃ fault, s.limits.validate call.1 call.2 = .error fault) ∨
      ∃ output, outcome = .ok ⟨output, true⟩)
  /-- At no time is there more than one line, and it carries the hash. -/
  once : lines = [] ∨ ∃ request elapsed outcome event now,
    s.limits.validate call.1 call.2 = .ok request ∧ s.eventOf? request elapsed outcome =
    some event ∧
      lines = [event.bytes now]

theorem eventOf?_eq_none (s : Service) (request : Request) (elapsed : Duration)
    (outcome : Except Fault Generated) :
    s.eventOf? request elapsed outcome = none ↔ ∃ output, outcome = .ok ⟨output, true⟩ := by
  unfold eventOf?
  split <;> simp_all

/-- A request is on record as far as it has gone. -/
theorem onRecord_of_isOf {call : String × Option Binary64} {a : Activity (Except Fault Generated)}
    (henabled : s.audit.enabled = true) (hof : a.IsOf (s.generate call.1 call.2).run)
    (haccepts : ∀ e ∈ a.past, s.audit.Accepts e) : s.OnRecord call a (s.audit.written a.past) := by
  have hended {outcome : Except Fault Generated} {request : Request} (h : a.result? = some outcome)
      (hvalid : s.limits.validate call.1 call.2 = .ok request) :
      ∃ elapsed now, s.audit.written a.past =
          (s.eventOf? request elapsed outcome).toList.map (·.bytes now) ∧
        (s.eventOf? request elapsed outcome = none → commandsOf a.past = []) := by
    rcases course_generate (hof.course h) with ⟨fault, hfault, -, -⟩ | ⟨request', hrequest, hcourse⟩
    · rw [hvalid] at hfault
      cases hfault
    obtain rfl : request = request' := Except.ok.inj (hvalid.symm.trans hrequest)
    obtain ⟨elapsed, hreports, hruns⟩ := reports_generateRequest hcourse
    obtain ⟨now, hwritten⟩ := hreports.written_eq henabled isText_entry? haccepts
    exact ⟨elapsed, now, hwritten, fun hnone => commandsOf_eq_nil (hruns hnone)⟩
  refine ⟨?_, ?_, ?_⟩
  · intro outcome h hcommands
    rcases course_generate (hof.course h) with ⟨-, -, hnil, -⟩ | ⟨request, hrequest, -⟩
    · rw [hnil] at hcommands
      exact absurd rfl hcommands
    obtain ⟨elapsed, now, hwritten, hnone⟩ := hended h hrequest
    cases hentry : s.eventOf? request elapsed outcome with
    | none => exact absurd (hnone hentry) hcommands
    | some event =>
      rw [hentry] at hwritten
      exact ⟨request, elapsed, event, now, hrequest, hentry, hwritten⟩
  · intro outcome h
    rcases course_generate (hof.course h) with ⟨fault, hfault, hnil, -⟩ | ⟨request, hrequest, -⟩
    · rw [hnil]
      exact iff_of_true rfl (.inl ⟨fault, hfault⟩)
    obtain ⟨elapsed, now, hwritten, -⟩ := hended h hrequest
    rw [hwritten, ← eventOf?_eq_none s request elapsed outcome]
    simp [hrequest, Option.toList_eq_nil_iff]
  · obtain ⟨more, outcome, hcourse⟩ := hof.exists_course
    rcases course_generate hcourse with ⟨-, -, hnil, -⟩ | ⟨request, hrequest, hcourse⟩
    · rw [(List.append_eq_nil_iff.mp hnil).1]
      exact .inl rfl
    obtain ⟨elapsed, hreports, -⟩ := reports_generateRequest hcourse
    rcases hreports.written_cases with hnil | ⟨event, now, hentry, hwritten⟩
    · exact .inl hnil
    · exact .inr ⟨request, elapsed, outcome, event, now, hrequest, hentry, hwritten⟩

/-- The log grows by lines of single tasks, and by those of requests as they are on record. -/
theorem ended_builds_are_recorded {R J : Type} [DecidableEq R] [DecidableEq J] (s : Service)
    (henabled : s.audit.enabled = true) (calls : R → String × Option Binary64) (m : Machine)
    {scene : Scene (R ⊕ J) Ending}
    (h : Scene.Runs s.audit.rules (Scene.start m (s.workload calls)) scene) :
    ∃ lines : List ((R ⊕ J) × ByteArray),
      s.audit.text scene.machine = (lines.map Prod.snd).foldl (· ++ ·) (s.audit.text m) ∧
      ∀ i : R, s.OnRecord (calls i) (scene.tasks (.inl i)) (theirs (.inl i) lines) := by
  obtain ⟨history⟩ := h.history
  refine ⟨history.lines, history.text_eq_lines, fun i => ?_⟩
  rw [history.theirs_lines]
  exact onRecord_of_isOf henabled (history.isOf (.inl i)) (history.accepts_past (.inl i))

end Service

/-! ## A run of two requests -/

namespace AuditLog

/-- Whether a reply leaves the log writable. -/
def accepts (log : AuditLog) : Event → Bool
  | ⟨.appendFile path _, r⟩ => path != log.path || r.isOk
  | ⟨.makeDirs dir, r⟩ => Path.parent? log.path != some dir || r.isOk
  | _ => true

theorem accepts_of {log : AuditLog} {e : Event} (h : log.accepts e = true) : log.Accepts e := by
  obtain ⟨c, r⟩ := e
  cases c with
  | appendFile path bytes =>
    intro hpath
    exact (Except.exists_eq_ok_of_isOk (by simpa [accepts, hpath] using h)).choose_spec
  | makeDirs dir =>
    intro hdir
    exact (Except.exists_eq_ok_of_isOk (by simpa [accepts, hdir] using h)).choose_spec
  | _ => trivial

/-- Whether the log takes what a call adds to it, and nothing else. -/
def allows (log : AuditLog) (m : Machine) (c : Call) : Bool :=
  match m.answer? c with
  | some (m', r) => log.accepts ⟨c, r⟩ &&
      decide ((log.text m').data = ((log.written? ⟨c, r⟩).elim (log.text m) (log.text m ++ ·)).data)
  | none => false

variable {ι : Type} {α : ι → Type} [DecidableEq ι] {s s' : Scene ι α}

/-- What is played with the log kept writable is a run. -/
theorem runs_of_play {log : AuditLog} {late : ι → Machine → (c : Call) → Option (Machine × c.Reply)}
    (hlate : ∀ i m c r m', late i m c = some (m', r) → log.Spares m m') {order : List ι}
    (h : s.play log.allows late order = some s') : Scene.Runs log.rules s s' := by
  refine Scene.runs_of_play (fun i m c r m' hallows hanswer => ?_) hlate h
  simp only [allows, hanswer, Bool.and_eq_true, decide_eq_true_eq] at hallows
  exact ⟨accepts_of hallows.1, ByteArray.ext hallows.2⟩

end AuditLog

namespace Service

/-- A service with a log and without a cache. -/
def audited : Service := { tidy with cacheEnabled := false, audit := ⟨true, "/a"⟩ }

/-- Every command fails. -/
def failing {ι : Type} (_ : ι) (m : Machine) : (c : Call) → Option (Machine × c.Reply)
  | .run .. => some (m, .ok ⟨1, .empty, .empty⟩)
  | _ => none

theorem spares_failing {ι : Type} (log : AuditLog) (i : ι) (m : Machine) (c : Call) (r : c.Reply)
    (m' : Machine) (h : failing i m c = some (m', r)) : log.Spares m m' := by
  unfold failing at h
  split at h
  · cases h
    exact ⟨rfl, rfl, rfl⟩
  · cases h

/-- The first request ends in a failed build, the second is left while its build is under way. -/
theorem ended_builds_are_recorded_two : ∃ (scene : Scene (Fin 2 ⊕ Empty) Ending)
    (lines : List ((Fin 2 ⊕ Empty) × ByteArray)),
    Scene.Runs audited.audit.rules
      (Scene.start .bare (audited.workload fun _ => ("x", none))) scene ∧
    commandsOf (scene.tasks (.inl 0)).past ≠ [] ∧ (scene.tasks (.inl 0)).result?.isSome = true ∧
    (scene.tasks (.inl 1)).command?.isSome = true ∧
    audited.audit.text scene.machine = (lines.map Prod.snd).foldl (· ++ ·) .empty ∧
    (theirs (.inl 0) lines).length = 1 ∧
    audited.OnRecord ("x", none) (scene.tasks (.inl 1)) (theirs (.inl 1) lines) := by
  have hplay :
      ((Scene.start .bare (audited.workload (J := Empty) fun _ : Fin 2 => ("x", none))).play
      audited.audit.allows failing (List.replicate 28 (.inl 0) ++ List.replicate 17 (.inl 1))).map
        (fun s => ((commandsOf (s.tasks (.inl 0)).past).length, (s.tasks (.inl 0)).result?.isSome,
          (s.tasks (.inl 1)).command?.isSome)) = some (1, true, true) := by
    decide +kernel
  obtain ⟨scene, hscene, hstate⟩ := Option.map_eq_some_iff.mp hplay
  obtain ⟨hbuilt, hstate⟩ := Prod.mk.inj hstate
  obtain ⟨hended, hunderway⟩ := Prod.mk.inj hstate
  have hruns := AuditLog.runs_of_play (spares_failing audited.audit) hscene
  have hcommands : commandsOf (scene.tasks (.inl 0)).past ≠ [] :=
    List.ne_nil_of_length_eq_add_one hbuilt
  obtain ⟨lines, htext, hrecord⟩ := ended_builds_are_recorded audited rfl (fun _ => ("x", none))
    .bare hruns
  obtain ⟨outcome, houtcome⟩ := Option.isSome_iff_exists.mp hended
  obtain ⟨_, _, event, now, -, -, hline⟩ := (hrecord 0).built outcome houtcome hcommands
  exact ⟨scene, lines, hruns, hcommands, hended, hunderway, htext, by simp [hline], hrecord 1⟩

/-- A machine on which a build takes a while. -/
def slowBuild : Machine :=
  { Machine.bare with
    runner :=
      .scripted
        [("build", [fun _ _ => { rest := ⟨20000000000⟩, outcome := .ok ⟨0, .empty, .empty⟩ }])] }

/-- What is left of a request that is abandoned after a while: the stages that were started, and
the log. -/
def abandonedAt (limit : Nat) : Option (List String × ByteArray) :=
  match slowBuild.runTask none (some limit) 40 (.ofProgram (audited.generate "x" none).run) with
  | (m, .abandoned t) => some (m.commands.map (·.stage), audited.audit.text (m.abandon t))
  | _ => none

/-- A request whose build was started and that is abandoned meanwhile is on no record. -/
theorem abandoned_build_unrecorded : audited.audit.enabled = true ∧
    abandonedAt 300000000 = some (["build"], .empty) := by
  decide +kernel

end Service

end Foundry
